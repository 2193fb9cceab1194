import Mathlib.Data.List.Perm.Basic
import Mathlib.Data.List.Nodup
import Mathlib.Tactic.Common

/-!
# The probe cycle of the fault tolerance service

In a cycle the prober sends each primary a message, polls all connections together, and updates
`gp_segment_configuration` from the answers (`ftsprobe.c`). An answer may make it send a second
message: to the primary, that it stop waiting for a mirror now marked down, or to the mirror, that
it take over.

What comes from outside is an input of the functions: what `libpq` and `poll` report and the clock.
Everything is decided on the configuration read at the start of the cycle.
-/

namespace Hdb.Fts

/-! ## The configuration -/

inductive Role
  | primary
  | mirror
  deriving DecidableEq, Repr

inductive Status
  | up
  | down
  deriving DecidableEq, Repr

inductive Mode
  | inSync
  | notInSync
  deriving DecidableEq, Repr

/-- A row of `gp_segment_configuration`. -/
structure SegmentConfig where
  dbid : Int
  segindex : Int
  role : Role
  status : Status
  mode : Mode
  deriving DecidableEq, Repr

abbrev Catalog : Type := List SegmentConfig

def SegmentConfig.isActivePrimary (s : SegmentConfig) : Bool := s.role == .primary

def SegmentConfig.isAlive (s : SegmentConfig) : Bool := s.status == .up

def SegmentConfig.isInSync (s : SegmentConfig) : Bool := s.mode == .inSync

/-! ## Messages and states -/

inductive FtsMessage
  | probe
  | syncrepOff
  | promote
  deriving DecidableEq, Repr

inductive FtsMessageState
  | probeSegment
  | syncrepOffSegment
  | promoteSegment
  | probeRetryWait
  | syncrepOffRetryWait
  | promoteRetryWait
  | probeSuccess
  | syncrepOffSuccess
  | promoteSuccess
  | probeFailed
  | syncrepOffFailed
  | promoteFailed
  | responseProcessed
  deriving DecidableEq, Repr

inductive FtsError
  /-- "cannot determine next success state for %d" -/
  | noNextSuccessState (state : FtsMessageState)
  /-- "cannot determine next failed state for %d" -/
  | noNextFailedState (state : FtsMessageState)
  /-- "FTS invalid internal state %d for (content=%d)primary dbid=%d, mirror dbid=%d" -/
  | invalidInternalState (state : FtsMessageState) (content primaryDbid mirrorDbid : Int)
  /-- "FTS cannot find dbid=%d in %s" -/
  | cannotFindDbid (dbid : Int)
  deriving DecidableEq, Repr

def FtsMessageState.isSuccess : FtsMessageState → Bool
  | .probeSuccess | .syncrepOffSuccess | .promoteSuccess => true
  | _ => false

def FtsMessageState.isFailed : FtsMessageState → Bool
  | .probeFailed | .syncrepOffFailed | .promoteFailed => true
  | _ => false

/-- The message that is being sent, and is sent again in a retry. -/
def FtsMessageState.message : FtsMessageState → Option FtsMessage
  | .probeSegment | .probeRetryWait | .probeSuccess | .probeFailed => some .probe
  | .syncrepOffSegment | .syncrepOffRetryWait | .syncrepOffSuccess | .syncrepOffFailed =>
    some .syncrepOff
  | .promoteSegment | .promoteRetryWait | .promoteSuccess | .promoteFailed => some .promote
  | .responseProcessed => none

/-- The message to send in this state, if a connection is open or to be opened in it. -/
def FtsMessageState.sending : FtsMessageState → Option FtsMessage
  | .probeSegment => some .probe
  | .syncrepOffSegment => some .syncrepOff
  | .promoteSegment => some .promote
  | _ => none

def nextSuccessState : FtsMessageState → Except FtsError FtsMessageState
  | .probeSegment => .ok .probeSuccess
  | .syncrepOffSegment => .ok .syncrepOffSuccess
  | .promoteSegment => .ok .promoteSuccess
  | state => .error (.noNextSuccessState state)

def nextFailedState : FtsMessageState → Except FtsError FtsMessageState
  | .probeSegment | .probeFailed | .probeRetryWait => .ok .probeFailed
  | .syncrepOffSegment | .syncrepOffFailed | .syncrepOffRetryWait => .ok .syncrepOffFailed
  | .promoteSegment | .promoteFailed | .promoteRetryWait => .ok .promoteFailed
  | state => .error (.noNextFailedState state)

/-! ## What a segment is known by in a cycle -/

structure FtsResult where
  isPrimaryAlive : Bool := false
  isMirrorAlive : Bool := false
  isInSync : Bool := false
  isSyncRepEnabled : Bool := false
  isRoleMirror : Bool := false
  retryRequested : Bool := false
  deriving DecidableEq, Repr

structure PollEvents where
  pollin : Bool := false
  pollout : Bool := false
  deriving DecidableEq, Repr

structure PollRevents where
  pollin : Bool := false
  pollout : Bool := false
  pollhup : Bool := false
  pollerr : Bool := false
  pollnval : Bool := false
  deriving DecidableEq, Repr

def PollEvents.any (e : PollEvents) : Bool := e.pollin || e.pollout

def PollRevents.any (r : PollRevents) : Bool :=
  r.pollin || r.pollout || r.pollhup || r.pollerr || r.pollnval

/-- Of the events asked for, those that are there; errors and hang-ups are always reported. -/
def PollEvents.poll (e : PollEvents) (ready : PollRevents) : PollRevents :=
  { ready with pollin := ready.pollin && e.pollin, pollout := ready.pollout && e.pollout }

inductive ConnStatus
  | bad
  | started
  | ok
  deriving DecidableEq, Repr

structure PgConn where
  status : ConnStatus
  /-- `asyncStatus` is `PGASYNC_IDLE`. -/
  idle : Bool
  deriving DecidableEq, Repr

/-- How an attempt to probe ended: it failed, perhaps because of a recovery that makes progress, or
it was answered, perhaps with the request to try again. -/
inductive Attempt
  | failed (recoveryMakingProgress : Bool)
  | answered (retryRequested : Bool)
  deriving DecidableEq, Repr

/-- A message as sent, with the catalog at that time. -/
structure Sent where
  message : FtsMessage
  dbid : Int
  catalog : Catalog
  deriving DecidableEq, Repr

structure FtsSegmentInfo where
  primary : SegmentConfig
  mirror : SegmentConfig
  result : FtsResult := {}
  state : FtsMessageState := .probeSegment
  pollEvents : PollEvents := {}
  pollRevents : PollRevents := {}
  startTime : Int := 0
  retryStartTime : Int := 0
  conn : Option PgConn := none
  retryCount : Nat := 0
  xlogrecptr : Nat := 0
  recoveryMakingProgress : Bool := false
  -- the rest is the history of the cycle, which the code does not have
  attempts : List Attempt := []
  sent : List Sent := []
  /-- The attempts made before each swap of roles. -/
  swaps : List (List Attempt) := []
  deriving DecidableEq, Repr

structure FtsSettings where
  probeRetries : Nat
  probeTimeout : Int
  deriving DecidableEq, Repr

/-! ## Inputs -/

/-- The error message of a failed connection. Of a server in recovery it should hold the position
replayed up to. -/
inductive ConnError
  | inRecovery (replayed : Option Nat)
  | other
  deriving DecidableEq, Repr

inductive PollingStatus
  | ok
  | reading
  | writing
  | failed (error : ConnError)
  deriving DecidableEq, Repr

inductive Received
  /-- `PQconsumeInput`, `PQisBusy`, `PQgetResult` or the shape of the result is not as it should
  be. -/
  | unusable
  | response (isMirrorAlive isInSync isSyncRepEnabled isRoleMirror retryRequested : Bool)
  deriving DecidableEq, Repr

/-- What happens on the connection to one segment in one pass of the loop. -/
structure Outcome where
  connectStart : Bool
  connectTime : Int
  connectPoll : PollingStatus
  ready : PollRevents
  sendQuery : Bool
  receive : FtsMessage → Received

/-- One pass of the loop: what happens for each content, and at which segment, if at any,
`processResponse` finds that the service is no longer active. -/
structure Pass where
  outcome : Int → Outcome
  pollTime : Int
  retryTime : Int
  stopAt : Option Nat

/-! ## Connecting, polling, sending, receiving -/

def FtsSegmentInfo.fail (e : FtsSegmentInfo) : Except FtsError FtsSegmentInfo := do
  let state ← nextFailedState e.state
  pure { e with state := state }

def checkIfFailedDueToRecoveryInProgress (error : ConnError) (e : FtsSegmentInfo) :
    FtsSegmentInfo :=
  match error with
  | .inRecovery (some tmpptr) =>
    if tmpptr ≤ e.xlogrecptr then e
    else { e with recoveryMakingProgress := true, xlogrecptr := tmpptr }
  | .inRecovery none | .other => e

def ftsConnect (o : Outcome) (e : FtsSegmentInfo) : Except FtsError FtsSegmentInfo :=
  if e.conn.any (·.status == .ok) then pure e
  else if e.state.sending.isSome then
    let e := { e with recoveryMakingProgress := false }
    match e.conn with
    | none =>
      -- `ftsConnectStart`
      if o.connectStart then
        pure { e with
          conn := some ⟨.started, true⟩
          pollEvents := { e.pollEvents with pollout := true }
          startTime := o.connectTime }
      else { e with conn := some ⟨.bad, true⟩ }.fail
    | some _ =>
      if e.pollRevents.pollout || e.pollRevents.pollin then
        match o.connectPoll with
        | .ok => pure { e with conn := some ⟨.ok, true⟩, pollEvents := ⟨false, true⟩ }
        | .reading => pure { e with pollEvents := { e.pollEvents with pollin := true } }
        | .writing => pure { e with pollEvents := { e.pollEvents with pollout := true } }
        | .failed error => do
          let e ← { e with conn := some ⟨.bad, true⟩ }.fail
          pure (checkIfFailedDueToRecoveryInProgress error e)
      else pure e
  else pure e

def ftsCheckTimeout (cfg : FtsSettings) (now : Int) (e : FtsSegmentInfo) :
    Except FtsError FtsSegmentInfo :=
  if !e.state.isSuccess && now - e.startTime > cfg.probeTimeout then e.fail else pure e

/-- `ftsPoll` for one segment that is polled. Only events that were asked for are reported. -/
def recordRevents (revents : PollRevents) (e : FtsSegmentInfo) : Except FtsError FtsSegmentInfo :=
  if revents.pollin || revents.pollout then
    pure { e with pollRevents := revents, pollEvents := {} }
  else if revents.any then { e with pollRevents := revents }.fail
  else pure { e with pollRevents := revents }

def ftsPoll (cfg : FtsSettings) (now : Int) (o : Outcome) (e : FtsSegmentInfo) :
    Except FtsError FtsSegmentInfo :=
  if e.pollEvents.any then do
    let e ← recordRevents (e.pollEvents.poll o.ready) e
    ftsCheckTimeout cfg now e
  else pure e

def ftsSend (rows : Catalog) (o : Outcome) (e : FtsSegmentInfo) :
    Except FtsError FtsSegmentInfo :=
  match e.state.sending with
  | some message =>
    if e.conn = some ⟨.ok, true⟩ && e.pollRevents.pollout then
      if o.sendQuery then
        pure { e with
          conn := some ⟨.ok, false⟩
          pollEvents := ⟨true, false⟩
          sent := ⟨message, e.primary.dbid, rows⟩ :: e.sent }
      else { e with conn := some ⟨.bad, true⟩ }.fail
    else pure e
  | none => pure e

/-- Record the response, which `ftsReceive` then takes as a success. -/
def probeRecordResponse (result : FtsResult) (e : FtsSegmentInfo) :
    Except FtsError FtsSegmentInfo := do
  let state ← nextSuccessState e.state
  pure { e with result := result, state := state }

def ftsReceive (o : Outcome) (e : FtsSegmentInfo) : Except FtsError FtsSegmentInfo :=
  match e.state.sending with
  | some message =>
    if e.conn.any (·.status == .ok) && e.pollRevents.pollin then
      match o.receive message with
      | .unusable => e.fail
      | .response isMirrorAlive isInSync isSyncRepEnabled isRoleMirror retryRequested =>
        probeRecordResponse
          ⟨true, isMirrorAlive, isInSync, isSyncRepEnabled, isRoleMirror, retryRequested⟩ e
    else pure e
  | none => pure e

/-! ## Retries -/

def FtsSegmentInfo.closed (e : FtsSegmentInfo) : FtsSegmentInfo :=
  { e with conn := none, pollEvents := {}, pollRevents := {}, result := {} }

/-- The state `retryForFtsFailed` goes to. -/
def retryWaitState (state : FtsMessageState) : FtsMessageState :=
  if state = .probeSuccess ∨ state = .probeFailed then .probeRetryWait
  else if state = .syncrepOffFailed then .syncrepOffRetryWait
  else .promoteRetryWait

def retryForFtsFailed (cfg : FtsSettings) (now : Int) (e : FtsSegmentInfo) : FtsSegmentInfo :=
  if e.retryCount = cfg.probeRetries then e
  else
    { e.closed with
      retryCount := e.retryCount + 1
      state := retryWaitState e.state
      retryStartTime := now }

/-- The attempt that has just ended is added to the history. -/
def FtsSegmentInfo.noted (e : FtsSegmentInfo) : FtsSegmentInfo :=
  match e.state with
  | .probeSuccess => { e with attempts := e.attempts ++ [.answered e.result.retryRequested] }
  | .probeFailed => { e with attempts := e.attempts ++ [.failed e.recoveryMakingProgress] }
  | _ => e

def processRetry (cfg : FtsSettings) (now : Int) (e : FtsSegmentInfo) : FtsSegmentInfo :=
  let e := e.noted
  match e.state with
  | .probeSuccess =>
    if e.result.retryRequested && e.mirror.isAlive then retryForFtsFailed cfg now e else e
  | .probeFailed | .syncrepOffFailed | .promoteFailed => retryForFtsFailed cfg now e
  | .probeRetryWait =>
    if now - e.retryStartTime < 1 then e else { e with state := .probeSegment }
  | .syncrepOffRetryWait =>
    if now - e.retryStartTime < 1 then e else { e with state := .syncrepOffSegment }
  | .promoteRetryWait =>
    if now - e.retryStartTime < 1 then e else { e with state := .promoteSegment }
  | _ => e

/-! ## Responses -/

def ftsResponseReady (e : FtsSegmentInfo) : Bool := e.state.isSuccess || e.state.isFailed

def updateRow (dbid : Int) (role : Role) (isSegmentAlive isInSync : Bool) (row : SegmentConfig) :
    SegmentConfig :=
  if row.dbid = dbid then
    { row with
      role := role
      status := if isSegmentAlive then .up else .down
      mode := if isInSync then .inSync else .notInSync }
  else row

def probeWalRepUpdateConfig (dbid : Int) (role : Role) (isSegmentAlive isInSync : Bool)
    (rows : Catalog) : Except FtsError Catalog :=
  if rows.any (·.dbid == dbid) then pure (rows.map (updateRow dbid role isSegmentAlive isInSync))
  else .error (.cannotFindDbid dbid)

def updateIfNeeded (needed : Bool) (dbid : Int) (role : Role) (isSegmentAlive isInSync : Bool)
    (rows : Catalog) : Except FtsError Catalog :=
  if needed then probeWalRepUpdateConfig dbid role isSegmentAlive isInSync rows else pure rows

/-- The second component of the result is `UpdateNeeded`. -/
def updateConfiguration (primary mirror : SegmentConfig) (newPrimaryRole newMirrorRole : Role)
    (isInSync isPrimaryAlive isMirrorAlive : Bool) (rows : Catalog) :
    Except FtsError (Catalog × Bool) := do
  let sync := isInSync != primary.isInSync
  let updatePrimary := isPrimaryAlive != primary.isAlive || sync
  let updateMirror := isMirrorAlive != mirror.isAlive || sync
  let rows ←
    updateIfNeeded updatePrimary primary.dbid newPrimaryRole isPrimaryAlive isInSync rows
  let rows ← updateIfNeeded updateMirror mirror.dbid newMirrorRole isMirrorAlive isInSync rows
  pure (rows, updatePrimary || updateMirror)

/-- The case for one segment of `processResponse`, before the connection is closed. -/
def respond (e : FtsSegmentInfo) (rows : Catalog) :
    Except FtsError (FtsSegmentInfo × Catalog × Bool) :=
  let isPrimaryAlive := e.result.isPrimaryAlive
  let isMirrorAlive := if isPrimaryAlive then e.result.isMirrorAlive else e.mirror.isAlive
  let isInSync := if isPrimaryAlive then e.result.isInSync else false
  match e.state with
  | .probeSuccess =>
    if e.result.isSyncRepEnabled && !isMirrorAlive then
      if !e.result.retryRequested then do
        let (rows, updated) ← updateConfiguration e.primary e.mirror .primary .mirror isInSync
          isPrimaryAlive isMirrorAlive rows
        pure ({ e with state := .syncrepOffSegment }, rows, updated)
      else pure ({ e with state := .responseProcessed }, rows, false)
    else if e.result.isRoleMirror then pure ({ e with state := .promoteSegment }, rows, false)
    else do
      let (rows, updated) ← updateConfiguration e.primary e.mirror .primary .mirror isInSync
        isPrimaryAlive isMirrorAlive rows
      pure ({ e with state := .responseProcessed }, rows, updated)
  | .probeFailed =>
    if e.recoveryMakingProgress then pure ({ e with state := .responseProcessed }, rows, false)
    else if e.mirror.isInSync then do
      let (rows, updated) ← updateConfiguration e.primary e.mirror .mirror .primary isInSync
        isPrimaryAlive isMirrorAlive rows
      pure ({ e with
        state := .promoteSegment
        primary := e.mirror
        mirror := e.primary
        swaps := e.attempts :: e.swaps }, rows, updated)
    else pure ({ e with state := .responseProcessed }, rows, false)
  | .syncrepOffFailed | .promoteFailed | .promoteSuccess | .syncrepOffSuccess =>
    pure ({ e with state := .responseProcessed }, rows, false)
  | state => .error (.invalidInternalState state e.primary.segindex e.primary.dbid e.mirror.dbid)

/-- The loop of `processResponse` over the segments that are left, of which at most `n` are looked
at. -/
def processResponse : Nat → List FtsSegmentInfo → Catalog →
    Except FtsError (List FtsSegmentInfo × Catalog × Bool)
  | 0, es, rows => pure (es, rows, false)
  | _ + 1, [], rows => pure ([], rows, false)
  | n + 1, e :: es, rows =>
    if ftsResponseReady e then do
      let (e, rows, updated) ← respond e rows
      let (es, rows, updated') ← processResponse n es rows
      pure ({ e.closed with retryCount := 0 } :: es, rows, updated || updated')
    else do
      let (es, rows, updated) ← processResponse n es rows
      pure (e :: es, rows, updated)

/-! ## The cycle -/

structure FtsContext where
  perSegInfos : List FtsSegmentInfo
  catalog : Catalog
  isUpdated : Bool
  deriving DecidableEq, Repr

def allDone (es : List FtsSegmentInfo) : Bool := es.all (·.state == .responseProcessed)

def ftsGetPeerSegment (rows : Catalog) (content dbid : Int) : Option SegmentConfig :=
  rows.find? fun row => row.segindex == content && row.dbid != dbid

def ftsWalRepInitProbeContext (rows : Catalog) : FtsContext where
  perSegInfos := rows.filterMap fun primary =>
    if primary.isActivePrimary then
      (ftsGetPeerSegment rows primary.segindex primary.dbid).map fun mirror =>
        { primary := primary, mirror := mirror }
    else none
  catalog := rows
  isUpdated := false

/-- The steps of one pass before the responses are processed. -/
def passEntry (cfg : FtsSettings) (rows : Catalog) (pass : Pass) (e : FtsSegmentInfo) :
    Except FtsError FtsSegmentInfo := do
  let o := pass.outcome e.primary.segindex
  let e ← ftsConnect o e
  let e ← ftsPoll cfg pass.pollTime o e
  let e ← ftsSend rows o e
  let e ← ftsReceive o e
  pure (processRetry cfg pass.retryTime e)

/-- One pass of the loop. The segments do not touch each other before `processResponse`, so each
goes through the five steps before it on its own. -/
def loopPass (cfg : FtsSettings) (pass : Pass) (ctx : FtsContext) : Except FtsError FtsContext := do
  let es ← ctx.perSegInfos.mapM (passEntry cfg ctx.catalog pass)
  let (es, rows, updated) ← processResponse (pass.stopAt.getD es.length) es ctx.catalog
  pure ⟨es, rows, ctx.isUpdated || updated⟩

/-- The loop of `FtsWalRepMessageSegments`, as far as the list of passes goes. -/
def messageLoop (cfg : FtsSettings) : List Pass → FtsContext → Except FtsError FtsContext
  | [], ctx => pure ctx
  | pass :: passes, ctx =>
    if allDone ctx.perSegInfos then pure ctx
    else do
      let ctx ← loopPass cfg pass ctx
      if pass.stopAt.isSome then pure ctx else messageLoop cfg passes ctx

def ftsWalRepMessageSegments (cfg : FtsSettings) (passes : List Pass) (rows : Catalog) :
    Except FtsError FtsContext :=
  messageLoop cfg passes (ftsWalRepInitProbeContext rows)

end Hdb.Fts
