import Hdb.Lib.Run

/-!
# Runaway sessions

When memory runs short, one process becomes the detector, flags the session that uses most memory
and publishes a new event version. The processes of that session that were active then clean up, by
an error or by ignoring the event, and count the session down; the one that finds the count at zero
takes the flag back and lets the next detector run.

The steps are those of `redzone_handler.c`, `runaway_cleaner.c` and `idle_tracker.c` between which
other processes can run: what is done under the spin lock of a session is one step, and so is each
update of a shared counter. The lists at the end of `RunawayState` are the history; no step reads
them.
-/

namespace Hdb.Mem

inductive RunawayStatus
  | notRunaway
  | primaryRunawaySession
  | secondaryRunawaySession
  deriving DecidableEq, Repr

/-- The fields of `SessionState` the protocol uses. -/
structure SessionState where
  activeProcessCount : Int
  cleanupCountdown : Int
  runawayStatus : RunawayStatus
  deriving DecidableEq, Repr

abbrev cleanupCountdownBeforeRunaway : Int := -1

/-- Where a process is. `deactivating` is between the two parts of `IdleTracker_DeactivateProcess`,
`cleaning` from the error of `RunawayCleaner_StartCleanup` on, `finishing` and `finished` in
`RunawayCleaner_RunawayCleanupDoneForProcess` before and after the countdown. -/
inductive ProcPc
  | notStarted
  | running
  | deactivating
  | cleaning
  | finishing
  | finished
  | exited
  deriving DecidableEq, Repr

/-- Where a process is in `RedZoneHandler_FlagTopConsumer`. -/
inductive Detector (S : Type)
  | none
  | scanning
  | chosen (s : S) (runawayStatus : RunawayStatus)
  deriving DecidableEq, Repr

/-- The variables of a process. -/
structure Proc (S : Type) where
  pc : ProcPc
  detector : Detector S
  isProcessActive : Bool
  activationVersion : Nat
  deactivationVersion : Nat
  beginCleanupRunawayVersion : Nat
  endCleanupRunawayVersion : Nat
  deriving DecidableEq, Repr

/-- A session was flagged: the version of the event and the processes that were active. -/
structure RunawayEvent (P S : Type) where
  version : Nat
  session : S
  members : List P
  deriving DecidableEq, Repr

structure RunawayState (P S : Type) where
  isRunawayDetector : Nat
  currentVersion : Nat
  latestRunawayVersion : Nat
  session : S → SessionState
  proc : P → Proc S
  /-- The events, the latest first. -/
  events : List (RunawayEvent P S)
  /-- The clean-ups begun. -/
  started : List (Nat × P)
  /-- The clean-ups counted down. -/
  cleaned : List (Nat × P)
  /-- The events whose flag was taken back. -/
  resets : List Nat

/-- The processes there can be, each with its session. -/
structure RunawayConfig (P S : Type) where
  procs : List P
  nodup : procs.Nodup
  sess : P → S

inductive RunawayAction (P S : Type)
  | start (p : P)
  | activateProcess (p : P)
  | deactivateProcess (p : P)
  | startCleanup (p : P) (shouldCancelQuery : Bool)
  | cleanupDoneForProcess (p : P)
  | countDown (p : P)
  | finalCheck (p : P)
  | exit (p : P)
  | tryDetect (p : P)
  | scan (p : P) (seen : List (S × Int × Int))
  | flag (p : P)
  deriving DecidableEq, Repr

def runawayInit {P S : Type} : RunawayState P S where
  isRunawayDetector := 0
  currentVersion := 1
  latestRunawayVersion := 0
  session := fun _ => ⟨0, cleanupCountdownBeforeRunaway, .notRunaway⟩
  proc := fun _ => ⟨.notStarted, .none, false, 1, 1, 0, 0⟩
  events := []
  started := []
  cleaned := []
  resets := []

variable {P S : Type} [DecidableEq P] [DecidableEq S]

def RunawayState.setProc (st : RunawayState P S) (p : P) (q : Proc S) : RunawayState P S :=
  { st with proc := Function.update st.proc p q }

def RunawayState.setSession (st : RunawayState P S) (s : S) (x : SessionState) :
    RunawayState P S :=
  { st with session := Function.update st.session s x }

/-- `IdleTracker_ActivateProcess`, under the spin lock. -/
def idleTrackerActivateProcess (cfg : RunawayConfig P S) (st : RunawayState P S) (p : P)
    (q : Proc S) : RunawayState P S :=
  let s := st.session (cfg.sess p)
  (st.setSession (cfg.sess p) { s with activeProcessCount := s.activeProcessCount + 1 }).setProc p
    { q with isProcessActive := true, activationVersion := st.currentVersion }

/-- The part of `IdleTracker_DeactivateProcess` under the spin lock. -/
def idleTrackerDeactivateProcess (cfg : RunawayConfig P S) (st : RunawayState P S) (p : P) :
    RunawayState P S :=
  let s := st.session (cfg.sess p)
  (st.setSession (cfg.sess p) { s with activeProcessCount := s.activeProcessCount - 1 }).setProc p
    { st.proc p with
      pc := .deactivating, isProcessActive := false, deactivationVersion := st.currentVersion }

/-- `RunawayCleaner_ShouldStartRunawayCleanup`. -/
def shouldStartRunawayCleanup (cfg : RunawayConfig P S) (st : RunawayState P S) (p : P) : Bool :=
  let q := st.proc p
  if (st.session (cfg.sess p)).runawayStatus ≠ .notRunaway ∧
      q.beginCleanupRunawayVersion ≠ st.latestRunawayVersion then
    if q.isProcessActive = true ∧ q.activationVersion < st.latestRunawayVersion then true
    else decide (q.isProcessActive = false ∧ st.latestRunawayVersion < q.deactivationVersion ∧
      q.activationVersion < st.latestRunawayVersion)
  else false

/-- `RunawayCleaner_StartCleanup`. Whether the query can be cancelled depends on what the process is
doing; an event that is ignored is done with at once. -/
def startCleanup (cfg : RunawayConfig P S) (st : RunawayState P S) (p : P)
    (shouldCancelQuery : Bool) : RunawayState P S :=
  let q := st.proc p
  if shouldStartRunawayCleanup cfg st p then
    let st := { st with started := (st.latestRunawayVersion, p) :: st.started }
    if shouldCancelQuery then
      st.setProc p { q with
        pc := .cleaning, beginCleanupRunawayVersion := st.latestRunawayVersion }
    else
      st.setProc p { q with
        pc := .finishing
        beginCleanupRunawayVersion := st.latestRunawayVersion
        endCleanupRunawayVersion := st.latestRunawayVersion }
  else st.setProc p { q with pc := .running }

/-- `RunawayCleaner_RunawayCleanupDoneForProcess` after an error, up to the countdown. A process
that was interrupted while it went idle is activated again. -/
def cleanupDoneForProcess (cfg : RunawayConfig P S) (st : RunawayState P S) (p : P) :
    RunawayState P S :=
  let q := st.proc p
  if q.beginCleanupRunawayVersion ≠ st.latestRunawayVersion ∨
      q.endCleanupRunawayVersion = q.beginCleanupRunawayVersion then
    st.setProc p { q with pc := .running }
  else
    let q := { q with
      pc := .finishing, endCleanupRunawayVersion := q.beginCleanupRunawayVersion }
    if q.isProcessActive then st.setProc p q else idleTrackerActivateProcess cfg st p q

/-- Count the session of the process down. -/
def countDown (cfg : RunawayConfig P S) (st : RunawayState P S) (p : P) : RunawayState P S :=
  let s := st.session (cfg.sess p)
  { (st.setSession (cfg.sess p) { s with cleanupCountdown := s.cleanupCountdown - 1 }).setProc p
      { st.proc p with pc := .finished } with
    cleaned := (st.latestRunawayVersion, p) :: st.cleaned }

/-- `RunawayCleaner_RunawayCleanupDoneForSession`. -/
def cleanupDoneForSession (cfg : RunawayConfig P S) (st : RunawayState P S) (p : P) :
    RunawayState P S :=
  let s := st.session (cfg.sess p)
  if s.runawayStatus ≠ .notRunaway then
    { st.setSession (cfg.sess p) { s with runawayStatus := .notRunaway } with
      isRunawayDetector := 0
      resets := st.latestRunawayVersion :: st.resets }
  else st

/-- The one that finds the countdown at zero takes the flag back. -/
def finalCheck (cfg : RunawayConfig P S) (st : RunawayState P S) (p : P) : RunawayState P S :=
  let s := st.session (cfg.sess p)
  let st := st.setProc p { st.proc p with pc := .running }
  if s.cleanupCountdown = 0 then
    cleanupDoneForSession cfg
      (st.setSession (cfg.sess p) { s with cleanupCountdown := cleanupCountdownBeforeRunaway }) p
  else st

/-- The loop of `RedZoneHandler_FlagTopConsumer` over the sessions, with the memory and the number
of active processes it reads of each. Nothing is locked, so that these can be from any time. The
result is the session with most memory of those with active processes, and of all. -/
def topConsumer (seen : List (S × Int × Int)) : Option S × Option S :=
  let r := seen.foldl (fun (r : (Option S × Int) × (Option S × Int)) x =>
    if r.1.2 < x.2.1 then
      let r := if r.2.2 < x.2.1 then (r.1, (some x.1, x.2.1)) else r
      if 0 < x.2.2 then ((some x.1, x.2.1), r.2) else r
    else r) ((none, 0), (none, 0))
  (r.1.1, r.2.1)

/-- The choice of the detector. With no session to flag, the next detector can run. -/
def detectorScan (st : RunawayState P S) (p : P) (seen : List (S × Int × Int)) :
    RunawayState P S :=
  let q := st.proc p
  match topConsumer seen with
  | (none, _) => { st.setProc p { q with detector := .none } with isRunawayDetector := 0 }
  | (some s, top) => st.setProc p { q with
      detector := .chosen s (if some s = top then .primaryRunawaySession
        else .secondaryRunawaySession) }

/-- Flag the chosen session, under its spin lock, if it still has an active process. -/
def detectorFlag (cfg : RunawayConfig P S) (st : RunawayState P S) (p : P) (s : S)
    (runawayStatus : RunawayStatus) : RunawayState P S :=
  let st := st.setProc p { st.proc p with detector := .none }
  let x := st.session s
  if 0 < x.activeProcessCount then
    { st.setSession s { x with
        cleanupCountdown := x.activeProcessCount, runawayStatus := runawayStatus } with
      latestRunawayVersion := st.currentVersion + 1
      currentVersion := st.currentVersion + 2
      events := ⟨st.currentVersion + 1, s, cfg.procs.filter fun p =>
        cfg.sess p == s && (st.proc p).isProcessActive⟩ :: st.events }
  else { st with isRunawayDetector := 0 }

/-- One step of a process. -/
def runawayStep (cfg : RunawayConfig P S) (st : RunawayState P S) :
    RunawayAction P S → Option (RunawayState P S)
  | .start p =>
    if p ∈ cfg.procs ∧ (st.proc p).pc = .notStarted then
      some (idleTrackerActivateProcess cfg st p { st.proc p with pc := .running })
    else none
  | .activateProcess p =>
    if (st.proc p).pc = .running ∧ (st.proc p).isProcessActive = false then
      some (idleTrackerActivateProcess cfg st p (st.proc p))
    else none
  | .deactivateProcess p =>
    if (st.proc p).pc = .running ∧ (st.proc p).isProcessActive = true then
      some (idleTrackerDeactivateProcess cfg st p)
    else none
  | .startCleanup p shouldCancelQuery =>
    if (st.proc p).pc = .running ∨ (st.proc p).pc = .deactivating then
      some (startCleanup cfg st p shouldCancelQuery)
    else none
  | .cleanupDoneForProcess p =>
    if (st.proc p).pc = .running ∨ (st.proc p).pc = .cleaning then
      some (cleanupDoneForProcess cfg st p)
    else none
  | .countDown p => if (st.proc p).pc = .finishing then some (countDown cfg st p) else none
  | .finalCheck p => if (st.proc p).pc = .finished then some (finalCheck cfg st p) else none
  | .exit p =>
    if (st.proc p).pc = .running ∧ (st.proc p).isProcessActive = false then
      some (st.setProc p { st.proc p with pc := .exited })
    else none
  | .tryDetect p =>
    if (st.proc p).detector = .none ∧ (st.proc p).pc ≠ .notStarted then
      if st.isRunawayDetector = 0 then
        some { st.setProc p { st.proc p with detector := .scanning } with isRunawayDetector := 1 }
      else some st
    else none
  | .scan p seen =>
    if (st.proc p).detector = .scanning then some (detectorScan st p seen) else none
  | .flag p =>
    match (st.proc p).detector with
    | .chosen s runawayStatus => some (detectorFlag cfg st p s runawayStatus)
    | _ => none

end Hdb.Mem
