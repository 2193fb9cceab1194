import Hdb.Lib.Run
import Mathlib.Tactic

/-!
# The vmem tracker

Every process keeps the bytes and the chunks it has reserved; the chunks are also counted in its
session, in its resource group and in the segment, by atomic additions that other processes can come
between. A reservation that fails takes its additions back one by one. While
`VmemTracker_ReserveVmem` looks for runaway sessions and interrupts, before it has reserved
anything, the same process may reserve and release other memory: such calls are `suspended`.

The counters of chunks stay far below 32 bits and are integers here; `newszChunk`, which is computed
from a number of bytes, is truncated as in the code. Each process also has the net amount it has
added to each counter, which no step reads.
-/

namespace Hdb.Mem

/-- The counters outside of a process. -/
inductive Counter
  | session
  | group
  | segment
  deriving DecidableEq, Repr

inductive MemoryAllocationStatus
  | success
  | vmemExhausted
  | queryMemoryExhausted
  | resourceGroupMemoryExhausted
  deriving DecidableEq, Repr

/-- A call of `VmemTracker_ReserveVmem` that needs chunks. -/
structure ReserveCall where
  newlyRequestedBytes : Int
  newszChunk : Int
  /-- The process executes a query and is not in a critical section. -/
  executing : Bool
  deriving DecidableEq, Repr

/-- What a process has, in bytes, in chunks and in each counter. -/
structure Holdings where
  trackedBytes : Int
  trackedVmemChunks : Int
  share : Counter → Int

/-- A call of `VmemTracker_ReserveVmemChunks`, and what the process had before it. -/
structure Reservation where
  numChunksToReserve : Int
  newlyRequestedBytes : Int
  executing : Bool
  held : Holdings

/-- What is done when the counters are changed. -/
inductive Finish
  | fail (r : Reservation) (status : MemoryAllocationStatus)
  | released
  | registered (executing : Bool)
  | unregistered
  | shutDown

/-- Where a process is. In `change` the counters of the list are still to be changed by `delta`. -/
inductive VmemPc
  | idle
  | addSession (r : Reservation)
  | groupReserve (r : Reservation) (total : Int)
  | addSegment (r : Reservation) (waiverUsed : Bool)
  | change (todo : List Counter) (delta : Int) (finish : Finish)

/-- The variables of a process. -/
structure Tracker where
  vmemTrackerInited : Bool
  held : Holdings
  startupBytes : Int
  startupChunks : Int
  waivedChunks : Int
  suspended : List ReserveCall
  pc : VmemPc

/-- A reservation of chunks has returned: with the total of the segment if it was added to it. -/
structure Returned where
  reservation : Reservation
  status : MemoryAllocationStatus
  newVmem : Int
  waivedChunks : Int
  held : Holdings

structure VmemState (P S : Type) where
  segmentVmemChunks : Int
  sessionVmem : S → Int
  proc : P → Tracker
  returned : List Returned

structure VmemConfig (P S : Type) where
  sess : P → S
  chunkSizeInBits : Nat
  vmemLimitChunks : Int
  maxChunksPerQuery : Int

inductive VmemAction (P : Type)
  | init (p : P)
  | reserveVmem (p : P) (newlyRequestedBytes : Nat) (executing : Bool)
  | resume (p : P)
  | throw (p : P)
  | releaseVmem (p : P) (toBeFreedRequested : Nat)
  | registerStartupMemory (p : P) (bytes : Nat) (executing : Bool)
  | unregisterStartupMemory (p : P)
  | shutdown (p : P)
  | requestWaiver (p : P) (chunks : Nat)
  | resetWaiver (p : P)
  | proceed (p : P) (granted waiverUsed : Bool)
  deriving DecidableEq, Repr

def noTracker : Tracker := ⟨false, ⟨0, 0, fun _ => 0⟩, 0, 0, 0, [], .idle⟩

def vmemInit {P S : Type} : VmemState P S := ⟨0, fun _ => 0, fun _ => noTracker, []⟩

/-- An `int32`. -/
def toInt32 (x : Int) : Int := (x + 2 ^ 31) % 2 ^ 32 - 2 ^ 31

variable {P S : Type} (cfg : VmemConfig P S)

/-- `trackedBytes >> VmemTracker_GetChunkSizeInBits()`. -/
def VmemConfig.chunks (bytes : Int) : Int := bytes / 2 ^ cfg.chunkSizeInBits

/-- `VmemTracker_ReserveVmem` up to the calls that may not return. A request within the chunks the
process has is done. -/
def Tracker.reserveVmem (t : Tracker) (newlyRequestedBytes : Int) (executing : Bool) : Tracker :=
  let newszChunk := toInt32 (cfg.chunks (t.held.trackedBytes + newlyRequestedBytes))
  if t.held.trackedVmemChunks < newszChunk then
    { t with suspended := ⟨newlyRequestedBytes, newszChunk, executing⟩ :: t.suspended }
  else
    { t with held :=
      { t.held with trackedBytes := t.held.trackedBytes + newlyRequestedBytes } }

/-- The rest of `VmemTracker_ReserveVmem`, with the chunks computed before. -/
def Tracker.resume (t : Tracker) : Option Tracker :=
  match t.suspended with
  | [] => none
  | call :: rest =>
    some { t with
      suspended := rest
      held := { t.held with trackedBytes := t.held.trackedBytes + call.newlyRequestedBytes }
      pc := .addSession ⟨call.newszChunk - t.held.trackedVmemChunks, call.newlyRequestedBytes,
        call.executing, t.held⟩ }

/-- `VmemTracker_ReleaseVmem`, up to `VmemTracker_ReleaseVmemChunks`. -/
def Tracker.releaseVmem (t : Tracker) (toBeFreedRequested : Int) : Tracker :=
  let toBeFreed := min (t.held.trackedBytes - t.startupBytes) toBeFreedRequested
  let bytes := t.held.trackedBytes - toBeFreed
  let newszChunk := toInt32 (cfg.chunks bytes)
  if toBeFreed = 0 then t
  else if newszChunk < t.held.trackedVmemChunks then
    { t with
      held := { t.held with trackedBytes := bytes }
      pc := .change [.segment, .session, .group] (-(t.held.trackedVmemChunks - newszChunk))
        .released }
  else { t with held := { t.held with trackedBytes := bytes } }

/-- `VmemTracker_RegisterStartupMemory`, up to the atomic additions. -/
def Tracker.registerStartupMemory (t : Tracker) (bytes : Int) (executing : Bool) : Tracker :=
  let startupChunks := cfg.chunks (bytes + 2 ^ cfg.chunkSizeInBits - 1)
  let startupBytes := startupChunks * 2 ^ cfg.chunkSizeInBits
  { t with
    startupChunks := startupChunks
    startupBytes := startupBytes
    held := { t.held with
      trackedBytes := t.held.trackedBytes + startupBytes
      trackedVmemChunks := t.held.trackedVmemChunks + startupChunks }
    pc := .change [.session, .segment] startupChunks (.registered executing) }

/-- What a process does after its last change of a counter. -/
def Tracker.finish (t : Tracker) (delta : Int) : Finish → Tracker
  | .fail r _ => { t with
      pc := .idle
      held := { t.held with trackedBytes := t.held.trackedBytes - r.newlyRequestedBytes } }
  | .released => { t with
      pc := .idle
      held := { t.held with trackedVmemChunks := t.held.trackedVmemChunks + delta } }
  | .registered executing => { t with pc := .addSession ⟨0, 0, executing, t.held⟩ }
  | .unregistered => { t with
      pc := .idle
      held := { t.held with
        trackedBytes := t.held.trackedBytes - t.startupBytes
        trackedVmemChunks := t.held.trackedVmemChunks - t.startupChunks }
      startupBytes := 0
      startupChunks := 0 }
  | .shutDown => { t with
      pc := .idle
      held := { t.held with
        trackedBytes := 0, trackedVmemChunks := t.held.trackedVmemChunks + delta } }

/-- The failures a finished change returns. -/
def returnedOf (t : Tracker) (delta : Int) : Finish → List Returned
  | .fail r status => [⟨r, status, 0, t.waivedChunks, (t.finish delta (.fail r status)).held⟩]
  | _ => []

variable [DecidableEq P] [DecidableEq S]

/-- Add to a counter, and to the share of the process in it. -/
def addCounter (st : VmemState P S) (p : P) (c : Counter) (delta : Int) (t : Tracker) :
    VmemState P S :=
  let t := { t with held :=
    { t.held with share := Function.update t.held.share c (t.held.share c + delta) } }
  let st := { st with proc := Function.update st.proc p t }
  match c with
  | .session => { st with
      sessionVmem := Function.update st.sessionVmem (cfg.sess p)
        (st.sessionVmem (cfg.sess p) + delta) }
  | .group => st
  | .segment => { st with segmentVmemChunks := st.segmentVmemChunks + delta }

def setTracker (st : VmemState P S) (p : P) (t : Tracker) : VmemState P S :=
  { st with proc := Function.update st.proc p t }

/-- `ResGroupReserveMemory` and the check of the limit of a query. Whether the group grants the
chunks is up to it. -/
def groupReserve (st : VmemState P S) (p : P) (r : Reservation) (total : Int)
    (granted waiverUsed : Bool) : VmemState P S :=
  let t := st.proc p
  if granted then
    let exhausted := cfg.maxChunksPerQuery ≠ 0 ∧ cfg.maxChunksPerQuery < total ∧ r.executing = true
    if exhausted ∧ cfg.maxChunksPerQuery + t.waivedChunks < total then
      addCounter cfg st p .group r.numChunksToReserve { t with
        pc := .change [.session, .group] (-r.numChunksToReserve) (.fail r .queryMemoryExhausted) }
    else
      addCounter cfg st p .group r.numChunksToReserve { t with
        pc := .addSegment r (waiverUsed || decide exhausted) }
  else
    setTracker st p { t with
      pc := .change [.session] (-r.numChunksToReserve) (.fail r .resourceGroupMemoryExhausted) }

/-- The reservation in the segment and the check of its limit. -/
def addSegment (st : VmemState P S) (p : P) (r : Reservation) (waiverUsed : Bool) :
    VmemState P S :=
  let t := st.proc p
  let newVmem := st.segmentVmemChunks + r.numChunksToReserve
  let exhausted := cfg.vmemLimitChunks < newVmem ∧ r.executing = true
  if exhausted ∧ cfg.vmemLimitChunks + t.waivedChunks < newVmem then
    addCounter cfg st p .segment r.numChunksToReserve { t with
      pc := .change [.session, .segment, .group] (-r.numChunksToReserve) (.fail r .vmemExhausted) }
  else
    let st := addCounter cfg st p .segment r.numChunksToReserve { t with
      pc := .idle
      held := { t.held with
        trackedVmemChunks := t.held.trackedVmemChunks + r.numChunksToReserve }
      waivedChunks := if 0 < t.waivedChunks ∧ (waiverUsed || decide exhausted) = false then 0
        else t.waivedChunks }
    { st with returned := ⟨r, .success, newVmem, t.waivedChunks, (st.proc p).held⟩ :: st.returned }

/-- The next atomic change a process makes in a call. -/
def proceed (st : VmemState P S) (p : P) (granted waiverUsed : Bool) : Option (VmemState P S) :=
  let t := st.proc p
  match t.pc with
  | .idle => none
  | .addSession r =>
    some (addCounter cfg st p .session r.numChunksToReserve { t with
      pc := .groupReserve r (st.sessionVmem (cfg.sess p) + r.numChunksToReserve) })
  | .groupReserve r total => some (groupReserve cfg st p r total granted waiverUsed)
  | .addSegment r waiverUsed => some (addSegment cfg st p r waiverUsed)
  | .change [] delta finish =>
    some { setTracker st p (t.finish delta finish) with
      returned := returnedOf t delta finish ++ st.returned }
  | .change (c :: todo) delta finish =>
    some (addCounter cfg st p c delta { t with pc := .change todo delta finish })

/-- The process is not in a call, or in one that is suspended. -/
def Tracker.canCall (t : Tracker) : Bool :=
  match t.pc with
  | .idle => t.vmemTrackerInited
  | _ => false

/-- The process is not in a call. -/
def Tracker.noCall (t : Tracker) : Bool :=
  t.canCall && t.suspended.isEmpty

/-- One step of a process. Startup memory is registered once, and unregistered before the tracker is
shut down. -/
def vmemStep (st : VmemState P S) : VmemAction P → Option (VmemState P S)
  | .init p =>
    let t := st.proc p
    match t.pc with
    | .idle =>
      if t.vmemTrackerInited = false then
        some (setTracker st p { t with
          vmemTrackerInited := true
          held := { t.held with trackedBytes := 0, trackedVmemChunks := 0 } })
      else none
    | _ => none
  | .reserveVmem p newlyRequestedBytes executing =>
    if (st.proc p).canCall then
      some (setTracker st p ((st.proc p).reserveVmem cfg newlyRequestedBytes executing))
    else none
  | .resume p =>
    if (st.proc p).canCall then ((st.proc p).resume).map (setTracker st p) else none
  | .throw p =>
    if (st.proc p).canCall then some (setTracker st p { st.proc p with suspended := [] }) else none
  | .releaseVmem p toBeFreedRequested =>
    if (st.proc p).canCall then
      some (setTracker st p ((st.proc p).releaseVmem cfg toBeFreedRequested))
    else none
  | .registerStartupMemory p bytes executing =>
    if (st.proc p).noCall ∧ (st.proc p).startupChunks = 0 then
      some (setTracker st p ((st.proc p).registerStartupMemory cfg bytes executing))
    else none
  | .unregisterStartupMemory p =>
    if (st.proc p).noCall then
      some (setTracker st p { st.proc p with
        pc := .change [.segment, .session] (-(st.proc p).startupChunks) .unregistered })
    else none
  | .shutdown p =>
    if (st.proc p).noCall ∧ (st.proc p).startupChunks = 0 then
      some (setTracker st p { st.proc p with
        vmemTrackerInited := false
        pc := .change [.segment, .session, .group]
          (-(st.proc p).held.trackedVmemChunks) .shutDown })
    else none
  | .requestWaiver p chunks =>
    if (st.proc p).canCall then
      some (setTracker st p { st.proc p with
        waivedChunks := max (chunks : Int) (st.proc p).waivedChunks })
    else none
  | .resetWaiver p =>
    if (st.proc p).canCall then some (setTracker st p { st.proc p with waivedChunks := 0 })
      else none
  | .proceed p granted waiverUsed => proceed cfg st p granted waiverUsed

end Hdb.Mem
