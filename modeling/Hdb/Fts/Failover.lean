import Hdb.Lib.Run
import Hdb.Fts.ProbeCycle

/-!
# Failover to the mirror

A primary, its mirror and the prober, with messages between them that may take any time or never
arrive, and the primary and the link to the mirror failing at any time.

Commits wait for the mirror when the shared flag `sync_standbys_defined` is set
(`SyncRepWaitForLSN`). The flag follows the setting `synchronous_standby_names` only at the next
reload of the configuration, while the answer to a probe (`HandleFtsWalRepProbe`) speaks as if it
were set already. The prober records what it is told, and on the record promotes the mirror when
the primary is gone.

Main results: `failover_keeps_commits`, for the runs in which the setting is loaded in time, and
`acknowledged_commit_lost`, a run in which it is not.
-/

namespace Hdb.Fts

/-! ## The state -/

inductive WalSndState
  | startup
  | catchup
  | streaming
  | stopping
  deriving DecidableEq, Repr

/-- The wal sender for the mirror. Its `sync_standby_priority` is always 1
(`SyncRepGetStandbyPriority`). -/
structure WalSnd where
  state : WalSndState
  sentPtr : Nat
  flush : Nat
  deriving DecidableEq, Repr

/-- A process of the primary that handles a probe, between `GetMirrorStatus` and its answer. -/
structure Handler where
  conn : Nat
  response : FtsResult
  deriving DecidableEq, Repr

structure Primary where
  up : Bool := true
  /-- The end of the WAL. -/
  wal : Nat := 0
  /-- Commits that are in the WAL and are not yet in `SyncRepWaitForLSN`. -/
  committing : List Nat := []
  /-- `SyncRepQueue`. -/
  queue : List Nat := []
  /-- Commits acknowledged without waiting for the mirror. -/
  ackedAlone : List Nat := []
  /-- Commits acknowledged once the mirror had them. -/
  ackedReplicated : List Nat := []
  /-- The flag in shared memory. -/
  syncStandbysDefined : Bool := false
  /-- `synchronous_standby_names` in the configuration file is `'*'`. -/
  synchronousStandbyNames : Bool := false
  /-- `WalSndCtl->lsn`. -/
  lsn : Nat := 0
  walSnd : Option WalSnd := none
  handlers : List Handler := []
  deriving DecidableEq, Repr

structure Message where
  conn : Nat
  message : FtsMessage
  dbid : Int
  deriving DecidableEq, Repr

structure Response where
  conn : Nat
  result : FtsResult
  deriving DecidableEq, Repr

structure FailoverState where
  primary : Primary := {}
  /-- The WAL the mirror has. -/
  received : Nat := 0
  promoted : Bool := false
  catalog : Catalog
  /-- The segment in the cycle of the prober, if one is going on. -/
  entry : Option FtsSegmentInfo := none
  /-- The connection of the prober. What comes on another one is not read. -/
  conn : Option Nat := none
  nextConn : Nat := 0
  messages : List Message := []
  responses : List Response := []
  deriving DecidableEq, Repr

/-! ## The primary -/

/-- `GetMirrorStatus`. Whether the mirror is to be given more time depends on the clock. -/
def getMirrorStatus (p : Primary) (inGracePeriod : Bool) : FtsResult :=
  let isUp := p.walSnd.any fun w => w.state == .catchup || w.state == .streaming
  let isStreaming := p.walSnd.any (·.state == .streaming)
  { isPrimaryAlive := true
    isMirrorAlive := isUp
    isInSync := isUp && isStreaming
    isSyncRepEnabled := p.syncStandbysDefined
    isRoleMirror := false
    retryRequested := !isUp && inGracePeriod }

def setSyncStandbysDefined (p : Primary) : Primary :=
  if p.syncStandbysDefined then p else { p with synchronousStandbyNames := true }

def unsetSyncStandbysDefined (p : Primary) : Primary :=
  if p.syncStandbysDefined then { p with synchronousStandbyNames := false } else p

/-- The rest of `HandleFtsWalRepProbe`, and the response it sends. -/
def answerProbe (p : Primary) (r : FtsResult) : Primary × FtsResult :=
  if r.isMirrorAlive && !r.isSyncRepEnabled then
    (setSyncStandbysDefined p, { r with isSyncRepEnabled := true })
  else (p, r)

/-- `SyncRepWaitForLSN`, up to the wait. -/
def syncRepWaitForLSN (p : Primary) (lsn : Nat) : Primary :=
  if !p.syncStandbysDefined then { p with ackedAlone := lsn :: p.ackedAlone }
  else if lsn ≤ p.lsn then { p with ackedReplicated := lsn :: p.ackedReplicated }
  else { p with queue := lsn :: p.queue }

/-- `SyncRepUpdateSyncStandbysDefined`: whoever waits is woken when the flag is taken back. -/
def syncRepUpdateSyncStandbysDefined (p : Primary) : Primary :=
  if p.synchronousStandbyNames = p.syncStandbysDefined then p
  else if p.synchronousStandbyNames then { p with syncStandbysDefined := true }
  else
    { p with
      syncStandbysDefined := false
      queue := []
      ackedAlone := p.queue ++ p.ackedAlone }

/-- `SyncRepReleaseWaiters`, for the wal sender `w`. -/
def syncRepReleaseWaiters (p : Primary) (w : WalSnd) : Primary :=
  if (w.state == .streaming || w.state == .stopping) && w.flush != 0 &&
      decide (p.lsn < w.flush) then
    { p with
      lsn := w.flush
      queue := p.queue.filter (w.flush < ·)
      ackedReplicated := p.queue.filter (· ≤ w.flush) ++ p.ackedReplicated }
  else p

/-! ## Steps -/

inductive FailoverAction
  | commit (size : Nat)
  | waitForLSN (lsn : Nat)
  | reload
  | mirrorConnect
  | startReplication
  | walSend (size : Nat)
  | caughtUp
  | walSndStop
  | mirrorReceive (upTo : Nat)
  | standbyReply (flush : Nat)
  | linkFail
  | crash
  | restart
  | receiveProbe (conn : Nat) (inGracePeriod : Bool)
  | answerProbe (handler : Handler)
  | syncrepOff (conn : Nat) (inGracePeriod : Bool)
  /-- The mirror gets a message. When it is promoted, it answers as a primary without mirror. -/
  | mirrorMessage (message : Message) (isSyncRepEnabled retryRequested : Bool)
  | ftsStart
  | ftsSend
  | ftsReceive (response : Response)
  | ftsFail (recoveryMakingProgress : Bool)
  | ftsProcess (now : Int)
  | ftsEnd
  deriving DecidableEq, Repr

/-- The two segments, and the settings of the prober. -/
structure FailoverConfig where
  settings : FtsSettings
  primaryDbid : Int
  mirrorDbid : Int
  content : Int
  ne : primaryDbid ≠ mirrorDbid

def FailoverState.withWalSnd (st : FailoverState) (f : WalSnd → Option FailoverState) :
    Option FailoverState :=
  if st.primary.up then st.primary.walSnd.bind f else none

def FailoverState.setWalSnd (st : FailoverState) (w : WalSnd) : FailoverState :=
  { st with primary := { st.primary with walSnd := some w } }

/-- The response of the mirror to a message of the prober. -/
def mirrorResponse (promoted isSyncRepEnabled retryRequested : Bool) : FtsResult :=
  if promoted then
    { isPrimaryAlive := true, isSyncRepEnabled := isSyncRepEnabled,
      retryRequested := retryRequested }
  else { isPrimaryAlive := true, isRoleMirror := true }

/-- `processRetry`, and the response if there is one to process. The connection of an attempt that
is over is closed. -/
def ftsProcess (cfg : FtsSettings) (now : Int) (st : FailoverState) (e : FtsSegmentInfo) :
    Option FailoverState :=
  let conn := if ftsResponseReady e then none else st.conn
  let e := processRetry cfg now e
  if ftsResponseReady e then
    match respond e st.catalog with
    | .ok (e, rows, _) => some { st with entry := some e.reset, catalog := rows, conn := conn }
    | .error _ => none
  else some { st with entry := some e, conn := conn }

def failoverStep (cfg : FailoverConfig) (st : FailoverState) : FailoverAction → Option FailoverState
  | .commit size =>
    if st.primary.up then
      some { st with
        primary := { st.primary with
          wal := st.primary.wal + size + 1
          committing := (st.primary.wal + size + 1) :: st.primary.committing } }
    else none
  | .waitForLSN lsn =>
    if st.primary.up && st.primary.committing.contains lsn then
      some { st with
        primary := syncRepWaitForLSN
          { st.primary with committing := st.primary.committing.erase lsn } lsn }
    else none
  | .reload =>
    if st.primary.up then
      some { st with primary := syncRepUpdateSyncStandbysDefined st.primary }
    else none
  | .mirrorConnect =>
    if st.primary.up && !st.promoted && st.primary.walSnd.isNone then
      some (st.setWalSnd ⟨.startup, 0, 0⟩)
    else none
  | .startReplication => st.withWalSnd fun w =>
    if w.state == .startup then
      some (st.setWalSnd { w with state := .catchup, sentPtr := st.received })
    else none
  | .walSend size => st.withWalSnd fun w =>
    if w.state == .startup then none
    else some (st.setWalSnd { w with sentPtr := min (w.sentPtr + size) st.primary.wal })
  | .caughtUp => st.withWalSnd fun w =>
    if w.state == .catchup && w.sentPtr == st.primary.wal then
      some (st.setWalSnd { w with state := .streaming })
    else none
  | .walSndStop => st.withWalSnd fun w =>
    if w.state == .startup then none else some (st.setWalSnd { w with state := .stopping })
  | .mirrorReceive upTo => st.withWalSnd fun w =>
    if !st.promoted && decide (upTo ≤ w.sentPtr) then
      some { st with received := max st.received upTo }
    else none
  | .standbyReply flush => st.withWalSnd fun w =>
    if flush ≤ st.received then
      let w := { w with flush := flush }
      some { st with primary := syncRepReleaseWaiters { st.primary with walSnd := some w } w }
    else none
  | .linkFail => some { st with primary := { st.primary with walSnd := none } }
  | .crash =>
    some { st with
      primary := { st.primary with
        up := false, committing := [], queue := [], walSnd := none, handlers := [] } }
  | .restart =>
    -- shared memory is set up anew
    if st.primary.up then none
    else some { st with
      primary := { st.primary with up := true, syncStandbysDefined := false, lsn := 0 } }
  | .receiveProbe conn inGracePeriod =>
    let message : Message := ⟨conn, .probe, cfg.primaryDbid⟩
    if st.primary.up && st.messages.contains message then
      some { st with
        messages := st.messages.erase message
        primary := { st.primary with
          handlers := ⟨conn, getMirrorStatus st.primary inGracePeriod⟩ :: st.primary.handlers } }
    else none
  | .answerProbe handler =>
    if st.primary.up && st.primary.handlers.contains handler then
      let (p, r) := Fts.answerProbe st.primary handler.response
      some { st with
        primary := { p with handlers := p.handlers.erase handler }
        responses := ⟨handler.conn, r⟩ :: st.responses }
    else none
  | .syncrepOff conn inGracePeriod =>
    let message : Message := ⟨conn, .syncrepOff, cfg.primaryDbid⟩
    if st.primary.up && st.messages.contains message then
      let p := unsetSyncStandbysDefined st.primary
      some { st with
        messages := st.messages.erase message
        primary := p
        responses := ⟨conn, getMirrorStatus p inGracePeriod⟩ :: st.responses }
    else none
  | .mirrorMessage message isSyncRepEnabled retryRequested =>
    if st.messages.contains message && message.dbid == cfg.mirrorDbid then
      some { st with
        messages := st.messages.erase message
        promoted := st.promoted || message.message == .promote
        responses :=
          ⟨message.conn, mirrorResponse st.promoted isSyncRepEnabled retryRequested⟩ ::
            st.responses }
    else none
  | .ftsStart =>
    if st.entry.isNone then
      (ftsWalRepInitProbeContext st.catalog).perSegInfos.head?.map fun e =>
        { st with entry := some e }
    else none
  | .ftsSend => st.entry.bind fun e =>
    match e.state.sending, st.conn with
    | some message, none =>
      some { st with
        messages := ⟨st.nextConn, message, e.primary.dbid⟩ :: st.messages
        conn := some st.nextConn
        nextConn := st.nextConn + 1 }
    | _, _ => none
  | .ftsReceive response => st.entry.bind fun e =>
    if e.state.sending.isSome && st.conn == some response.conn &&
        st.responses.contains response then
      (probeRecordResponse response.result e).toOption.map fun e => { st with entry := some e }
    else none
  | .ftsFail recoveryMakingProgress => st.entry.bind fun e =>
    if e.state.sending.isSome then
      { e with recoveryMakingProgress := recoveryMakingProgress }.fail.toOption.map fun e =>
        { st with entry := some e }
    else none
  | .ftsProcess now => st.entry.bind fun e => ftsProcess cfg.settings now st e
  | .ftsEnd => st.entry.bind fun e =>
    if e.state == .responseProcessed then some { st with entry := none, conn := none } else none

/-- The primary is up and the mirror is not yet in sync. -/
def failoverStart (cfg : FailoverConfig) (mirrorStatus : Status) : FailoverState where
  catalog :=
    [⟨cfg.primaryDbid, cfg.content, .primary, .up, .notInSync⟩,
      ⟨cfg.mirrorDbid, cfg.content, .mirror, mirrorStatus, .notInSync⟩]

/-! ## When nothing is lost -/

/-- The condition on a step. A commit does not get past the flag while the setting that would make
it wait is not loaded. A probe is answered with "in sync" only when the setting is on, or turned on
by the answer, and the mirror has the commits that did not wait for it. And a message that turns
the replication off is handled while the prober waits for the answer. -/
def loadedInTime (st : FailoverState) : FailoverAction → Bool
  | .waitForLSN _ => st.primary.syncStandbysDefined || !st.primary.synchronousStandbyNames
  | .answerProbe handler =>
    !handler.response.isInSync ||
      ((st.primary.synchronousStandbyNames ||
          (!handler.response.isSyncRepEnabled && !st.primary.syncStandbysDefined)) &&
        st.primary.ackedAlone.all (· ≤ st.received))
  | .syncrepOff conn _ => st.conn == some conn
  | _ => true

/-- The prober has made the mirror the primary. -/
def Promoted (cfg : FailoverConfig) (st : FailoverState) : Prop :=
  ∃ row ∈ st.catalog, row.dbid = cfg.mirrorDbid ∧ row.role = .primary

/-- Every commit the primary ever acknowledged is in the WAL the mirror has. -/
def CommitsReceived (st : FailoverState) : Prop :=
  (∀ lsn ∈ st.primary.ackedAlone, lsn ≤ st.received) ∧
    ∀ lsn ∈ st.primary.ackedReplicated, lsn ≤ st.received

end Hdb.Fts
