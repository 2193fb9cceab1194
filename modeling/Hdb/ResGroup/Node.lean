import Hdb.ResGroup.Control
import Hdb.Lib.Run

/-!
# Resource groups: the processes of one node

A node is the dispatcher or a segment. Its processes take slots, give them back, wait in the queue
of a group and charge memory, while other transactions create, alter and drop groups. Every step
is one call, or the part of a call that runs under one acquisition of `ResGroupLock`; the waiter
of `groupAcquireSlot` leaves the lock in between, so its return is a step of its own.

A process is a query dispatcher or an executor. The executors run on the segments and, where a slice
of a plan is to run there, on the dispatcher too; the processes of a session on one node share its
slot.
-/

namespace Hdb.ResGroup

open ResGroupControl

variable {g s p : ℕ}

/-- Where a process stands with the resource groups. -/
inductive SelfState (g s : ℕ)
  | idle
  /-- In `waitOnGroup`, with `groupAwaited`. -/
  | awaiting (i : Fin g)
  /-- `groupAcquireSlot` has returned the slot; it is not attached yet. -/
  | acquired (i : Fin g) (x : Fin s)
  /-- `selfIsAssigned()`. -/
  | assigned (i : Fin g) (x : Fin s)
  /-- `bypassedGroup`, with the fake slot `bypassedSlot`. -/
  | bypassed (i : Fin g) (slot : ResGroupSlotData g)
deriving DecidableEq

structure ResGroupProcData (g s : ℕ) where
  memUsage : ℤ
  bypassMemoryLimit : ℤ
  state : SelfState g s
deriving DecidableEq

structure Node (g s p : ℕ) where
  ctl : ResGroupControl g s p
  procs : Fin p → ResGroupProcData g s
  /-- The transactions that have created a group and are not finished. -/
  creating : List ℕ
  /-- The transactions that have passed `ResGroupCheckForDrop` and are not finished. -/
  dropping : List ℕ

structure NodeConfig (p : ℕ) where
  /-- The node, and the processes of it that create, alter and drop groups. -/
  role : GpRole
  gpRole : Fin p → GpRole
  session : Fin p → Fin p
  /-- The query dispatchers are on the dispatcher. -/
  onDispatcher : ∀ q, gpRole q = .dispatch → role = .dispatch

inductive Action (g p : ℕ)
  | createGroup (groupId : ℕ) (caps : ResGroupCaps)
  | createFinish (groupId : ℕ) (isCommit : Bool)
  | alter (groupId : ℕ) (limit : ResGroupLimit)
  | checkForDrop (groupId : ℕ)
  | dropFinish (groupId : ℕ) (isCommit : Bool)
  /-- `groupAcquireSlot`, with the group and the id that `decideResGroup` found. -/
  | acquireSlot (q : Fin p) (i : Fin g) (groupId : ℕ)
  /-- The waiter has been woken up and returns from `waitOnGroup`. -/
  | awake (q : Fin p)
  /-- The rest of `AssignResGroupOnMaster`. -/
  | attach (q : Fin p)
  | waitCancel (q : Fin p)
  | unassign (q : Fin p)
  /-- `AssignResGroupOnMaster` of a query that bypasses the resource groups. -/
  | assignBypassed (q : Fin p) (i : Fin g) (groupId : ℕ)
  | switchOnSegment (q : Fin p) (groupId : ℕ) (caps : ResGroupCaps)
  /-- `SwitchResGroupOnSegment` of a query that bypasses the resource groups. -/
  | switchBypassed (q : Fin p) (groupId : ℕ)
  | reserveMemory (q : Fin p) (memoryChunks overuseChunks : ℕ) (critSection : Bool)
  | releaseMemory (q : Fin p) (memoryChunks : ℕ)

namespace Node

def setState (n : Node g s p) (q : Fin p) (state : SelfState g s) : Node g s p :=
  { n with procs := Function.update n.procs q { n.procs q with state := state } }

def setMemUsage (n : Node g s p) (q : Fin p) (memUsage : ℤ) : Node g s p :=
  { n with procs := Function.update n.procs q { n.procs q with memUsage := memUsage } }

end Node

def emptyCaps : ResGroupCaps where
  concurrency := 0
  memLimit := 0
  memSharedQuota := 0
  memAuditor := .vmtracker
  memLimit_le := Nat.zero_le _
  memSharedQuota_le := Nat.zero_le _
  concurrency_cgroup _ := rfl

/-- `ResGroupControlInit`: no group, and every slot in the pool. -/
def initialNode (g s p totalChunks : ℕ) : Node g s p where
  ctl :=
    { totalChunks := totalChunks
      freeChunks := totalChunks
      groups := fun _ => { newGroup totalChunks 0 emptyCaps with groupId := none }
      slots := fun _ =>
        { groupId := none, group := none, memQuota := -1, memUsage := 0, nProcs := 0 }
      freeSlot := List.finRange s
      resSlot := fun _ => none
      procIsWaiting := fun _ => false
      resGroupSlot := fun _ => none }
  procs := fun _ => { memUsage := 0, bypassMemoryLimit := 0, state := .idle }
  creating := []
  dropping := []

/-- The fake slot of a query that bypasses the resource groups. -/
def bypassedSlot (i : Fin g) (groupId : ℕ) : ResGroupSlotData g where
  groupId := some groupId
  group := some i
  memQuota := 0
  memUsage := 0
  nProcs := 0

/-! ## Memory -/

/-- `groupIncMemUsage` on a slot of the pool. -/
def incSlot (c : ResGroupControl g s p) (i : Fin g) (x : Fin s) (chunks : ℤ) :
    ResGroupControl g s p :=
  let (_, slot, c') := groupIncMemUsage c i (c.slots x) chunks
  c'.setSlot x slot

/-- `groupDecMemUsage` on a slot of the pool. -/
def decSlot (c : ResGroupControl g s p) (i : Fin g) (x : Fin s) (chunks : ℤ) :
    ResGroupControl g s p :=
  let (slot, c') := groupDecMemUsage c i (c.slots x) chunks
  c'.setSlot x slot

/-- `ResGroupReserveMemory`. -/
def reserveMemory (n : Node g s p) (q : Fin p) (memoryChunks overuseChunks : ℕ)
    (critSection : Bool) : Node g s p :=
  let memUsage := (n.procs q).memUsage + memoryChunks
  match (n.procs q).state with
  | .bypassed i slot =>
    if (n.procs q).bypassMemoryLimit < memUsage then n
    else
      let (overuseMem, slot', c') := groupIncMemUsage n.ctl i slot memoryChunks
      if critSection = false ∧ (overuseChunks : ℤ) < overuseMem then
        -- the over usage is larger than allowed: revert the change
        let (slot'', c'') := groupDecMemUsage c' i slot' memoryChunks
        { n with ctl := c'' }.setState q (.bypassed i slot'')
      else ({ n with ctl := c' }.setState q (.bypassed i slot')).setMemUsage q memUsage
  | .assigned i x =>
    let (overuseMem, _, _) := groupIncMemUsage n.ctl i (n.ctl.slots x) memoryChunks
    let c' := incSlot n.ctl i x memoryChunks
    if critSection = false ∧ (overuseChunks : ℤ) < overuseMem then
      { n with ctl := decSlot c' i x memoryChunks }
    else { n with ctl := c' }.setMemUsage q memUsage
  | .idle | .awaiting _ | .acquired _ _ => n.setMemUsage q memUsage

/-- `ResGroupReleaseMemory`. -/
def releaseMemory (n : Node g s p) (q : Fin p) (memoryChunks : ℕ) : Node g s p :=
  let n' := n.setMemUsage q ((n.procs q).memUsage - memoryChunks)
  match (n.procs q).state with
  | .bypassed i slot =>
    let (slot', c') := groupDecMemUsage n.ctl i slot memoryChunks
    { n' with ctl := c' }.setState q (.bypassed i slot')
  | .assigned i x => { n' with ctl := decSlot n.ctl i x memoryChunks }
  | .idle | .awaiting _ | .acquired _ _ => n'

/-! ## Slots -/

/-- `groupAcquireSlot` up to the wait on the queue. -/
def acquireSlot (n : Node g s p) (q : Fin p) (i : Fin g) (groupId : ℕ) : Option (Node g s p) :=
  if (n.ctl.groups i).groupId ≠ some groupId then some n
  else if (n.ctl.groups i).lockedForDrop then
    some ({ n with ctl := groupWaitQueuePush n.ctl i q }.setState q (.awaiting i))
  else
    (groupGetSlot n.ctl i).map fun
      | (some x, c) => { n with ctl := c }.setState q (.acquired i x)
      | (none, c) => { n with ctl := groupWaitQueuePush c i q }.setState q (.awaiting i)

/-- The end of `groupAcquireSlot` after the wait. -/
def awake (n : Node g s p) (q : Fin p) (i : Fin g) : Node g s p :=
  match n.ctl.resSlot q with
  | some x =>
    { n with ctl := { n.ctl with resSlot := Function.update n.ctl.resSlot q none } }.setState q
      (.acquired i x)
  | none => n.setState q .idle

/-- `sessionSetSlot` and `selfAttachResGroup`. -/
def attachSlot (cfg : NodeConfig p) (n : Node g s p) (q : Fin p) (i : Fin g) (x : Fin s) :
    Node g s p :=
  let c := incSlot n.ctl i x (n.procs q).memUsage
  let c' := c.setSlot x { c.slots x with nProcs := (c.slots x).nProcs + 1 }
  { n with
    ctl := { c' with resGroupSlot := Function.update c'.resGroupSlot (cfg.session q) (some x) }
  }.setState q (.assigned i x)

def groupWaitCancel (cfg : NodeConfig p) (n : Node g s p) (q : Fin p) (i : Fin g) :
    Option (Node g s p) :=
  if n.ctl.procIsWaiting q then
    some ({ n with ctl := groupWaitQueueErase n.ctl i q }.setState q .idle)
  else
    match n.ctl.resSlot q with
    | some x =>
      -- only a query dispatcher waits for a slot
      (groupReleaseSlot cfg.role .dispatch (cfg.session q)
          { n.ctl with resSlot := Function.update n.ctl.resSlot q none } i x).map fun c =>
        { n with ctl := c }.setState q .idle
    | none => some (n.setState q .idle)

/-- The control after `selfDetachResGroup`. -/
def detachSlot (n : Node g s p) (q : Fin p) (i : Fin g) (x : Fin s) : ResGroupControl g s p :=
  let c := decSlot n.ctl i x (n.procs q).memUsage
  c.setSlot x { c.slots x with nProcs := (c.slots x).nProcs - 1 }

/-- `UnassignResGroup`. -/
def unassign (cfg : NodeConfig p) (n : Node g s p) (q : Fin p) : Option (Node g s p) :=
  match (n.procs q).state with
  | .bypassed i slot =>
    let c := if cfg.gpRole q = .dispatch then
        n.ctl.setGroup i
          { n.ctl.groups i with nRunningBypassed := (n.ctl.groups i).nRunningBypassed - 1 }
      else n.ctl
    some ({ n with ctl := (groupDecMemUsage c i slot (n.procs q).memUsage).2 }.setState q .idle)
  | .assigned i x =>
    let c := detachSlot n q i x
    if (c.slots x).nProcs = 0 then
      (groupReleaseSlot cfg.role (cfg.gpRole q) (cfg.session q) c i x).map fun c' =>
        { n with ctl := c' }.setState q .idle
    else some ({ n with ctl := c }.setState q .idle)
  | .idle => some n
  | .awaiting _ | .acquired _ _ => none

/-- `RESGROUP_BYPASS_MODE_MEMORY_LIMIT_ON_QD` and `RESGROUP_BYPASS_MODE_MEMORY_LIMIT_ON_QE`. -/
def bypassModeMemoryLimit : GpRole → ℤ
  | .dispatch => 30
  | .execute => 10

/-- Initialize the fake slot and charge the memory of the process to the group. -/
def attachBypassed (cfg : NodeConfig p) (n : Node g s p) (q : Fin p) (i : Fin g) (groupId : ℕ) :
    Node g s p :=
  let (_, slot, c) := groupIncMemUsage n.ctl i (bypassedSlot i groupId) (n.procs q).memUsage
  { n with
    ctl := c
    procs := Function.update n.procs q
      { n.procs q with
        state := .bypassed i slot
        bypassMemoryLimit := (n.procs q).memUsage + bypassModeMemoryLimit (cfg.gpRole q) } }

/-- A dropped group, or one locked for drop, makes the process look for its group again. -/
def assignBypassed (cfg : NodeConfig p) (n : Node g s p) (q : Fin p) (i : Fin g) (groupId : ℕ) :
    Node g s p :=
  if (n.ctl.groups i).groupId ≠ some groupId ∨ (n.ctl.groups i).lockedForDrop then n
  else
    let group :=
      { n.ctl.groups i with nRunningBypassed := (n.ctl.groups i).nRunningBypassed + 1 }
    attachBypassed cfg { n with ctl := n.ctl.setGroup i group } q i groupId

/-- The slot of the session of an executor: the one it has, or a new one, whatever the concurrency
of the group is. The dispatcher sends the queries of one transaction at a time, so the slot of the
session is of the same group. -/
def segmentSlot (cfg : NodeConfig p) (c : ResGroupControl g s p) (q : Fin p) (i : Fin g)
    (groupId : ℕ) (caps : ResGroupCaps) : Option (Fin s × ResGroupControl g s p) :=
  match c.resGroupSlot (cfg.session q) with
  | some x => if (c.slots x).groupId = some groupId then some (x, c) else none
  | none =>
    (slotpoolAllocSlot c).map fun (x, c1) =>
      let c2 := mempoolAutoReserve c1 i caps
      let c3 := initSlot c2 x i (slotGetMemQuotaOnQE c2.totalChunks caps (c2.groups i))
      (x, c3.setGroup i
        { c3.groups i with
          memQuotaUsed := (c3.groups i).memQuotaUsed + (c3.slots x).memQuota
          nRunning := (c3.groups i).nRunning + 1 })

/-- `SwitchResGroupOnSegment` of an executor that is not assigned. The capabilities are those of a
slot of the dispatcher, so their concurrency is not 0. -/
def switchOnSegment (cfg : NodeConfig p) (n : Node g s p) (q : Fin p) (i : Fin g) (groupId : ℕ)
    (caps : ResGroupCaps) : Option (Node g s p) :=
  if 0 < caps.concurrency then
    (segmentSlot cfg n.ctl q i groupId caps).map fun (x, c) =>
      attachSlot cfg { n with ctl := c } q i x
  else none

/-! ## Steps -/

/-- One step of the node; `none` when it is not possible. -/
def nodeStep (cfg : NodeConfig p) (n : Node g s p) : Action g p → Option (Node g s p)
  | .createGroup groupId caps =>
    (createGroup n.ctl groupId caps).map fun c =>
      { n with ctl := c, creating := groupId :: n.creating }
  | .createFinish groupId isCommit =>
    if groupId ∈ n.creating then
      if isCommit then some { n with creating := n.creating.erase groupId }
      else
        (groupHashFind n.ctl groupId).bind fun i =>
          (removeGroup cfg.role n.ctl i).map fun c =>
            { n with ctl := c, creating := n.creating.erase groupId }
    else none
  | .alter groupId limit =>
    (groupHashFind n.ctl groupId).bind fun i =>
      ((n.ctl.groups i).caps.alter limit).bind fun caps =>
        (ResGroupAlterOnCommit cfg.role n.ctl i limit caps).map fun c => { n with ctl := c }
  | .checkForDrop groupId =>
    (groupHashFind n.ctl groupId).bind fun i =>
      (ResGroupCheckForDrop cfg.role n.ctl i).map fun c =>
        { n with ctl := c, dropping := groupId :: n.dropping }
  | .dropFinish groupId isCommit =>
    if groupId ∈ n.dropping then
      match groupHashFind n.ctl groupId with
      | none => some { n with dropping := n.dropping.erase groupId }
      | some i =>
        (ResGroupDropFinish cfg.role n.ctl i isCommit).map fun c =>
          { n with ctl := c, dropping := n.dropping.erase groupId }
    else none
  | .acquireSlot q i groupId =>
    if cfg.gpRole q = .dispatch ∧ (n.procs q).state = .idle then acquireSlot n q i groupId else none
  | .awake q =>
    match (n.procs q).state with
    | .awaiting i => if n.ctl.procIsWaiting q then none else some (awake n q i)
    | _ => none
  | .attach q =>
    match (n.procs q).state with
    | .acquired i x => some (attachSlot cfg n q i x)
    | _ => none
  | .waitCancel q =>
    match (n.procs q).state with
    | .awaiting i => groupWaitCancel cfg n q i
    | _ => none
  | .unassign q => unassign cfg n q
  | .assignBypassed q i groupId =>
    if cfg.gpRole q = .dispatch ∧ (n.procs q).state = .idle then
      some (assignBypassed cfg n q i groupId)
    else none
  | .switchOnSegment q groupId caps =>
    if cfg.gpRole q = .execute ∧ (n.procs q).state = .idle then
      (groupHashFind n.ctl groupId).bind fun i => switchOnSegment cfg n q i groupId caps
    else none
  | .switchBypassed q groupId =>
    if cfg.gpRole q = .execute ∧ (n.procs q).state = .idle then
      (groupHashFind n.ctl groupId).map fun i => attachBypassed cfg n q i groupId
    else none
  | .reserveMemory q memoryChunks overuseChunks critSection =>
    some (reserveMemory n q memoryChunks overuseChunks critSection)
  | .releaseMemory q memoryChunks =>
    if (memoryChunks : ℤ) ≤ (n.procs q).memUsage then some (releaseMemory n q memoryChunks)
    else none

end Hdb.ResGroup
