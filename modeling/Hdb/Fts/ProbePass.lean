import Hdb.Fts.Configuration

/-!
# One pass over a segment

The invariant of a segment in a probe cycle, and that connecting, polling, sending, receiving and
retrying keep it and raise no error. These steps touch neither the catalog nor the configuration
read at the start of the cycle.
-/

namespace Hdb.Fts

/-! ## Responses and messages -/

/-- What `processResponse` asserts of the response to a probe. -/
structure FtsResult.Asserted (primary mirror : SegmentConfig) (r : FtsResult) : Prop where
  in_sync : r.isInSync = true → r.isMirrorAlive = true
  sync_rep : r.isMirrorAlive = true → r.isSyncRepEnabled = true
  role_mirror : r.isRoleMirror = true → (r.isSyncRepEnabled && !r.isMirrorAlive) = false →
    r.isMirrorAlive = false ∧ mirror.status = .down ∧ mirror.mode = .notInSync ∧
      primary.mode = .notInSync ∧ r.isSyncRepEnabled = false

/-- The responses to the probes of a pass are as asserted. -/
def Pass.Asserted (rows : Catalog) (pass : Pass) : Prop :=
  ∀ p m, OwnPair rows p m → ∀ isMirrorAlive isInSync isSyncRepEnabled isRoleMirror retryRequested,
    (pass.outcome p.segindex).receive .probe =
        .response isMirrorAlive isInSync isSyncRepEnabled isRoleMirror retryRequested →
      FtsResult.Asserted p m
        ⟨true, isMirrorAlive, isInSync, isSyncRepEnabled, isRoleMirror, retryRequested⟩

/-- The rows of a pair whose mirror was given up. -/
def MirrorDown (p m : SegmentConfig) : Prop := m.status = .down ∧ p.mode = .notInSync

/-- A message goes to the primary by the catalog, and other messages than probes only when its
mirror is marked down and they are marked as not in sync. -/
def Sent.Justified (s : Sent) : Prop :=
  ∃ p m, OwnPair s.catalog p m ∧ p.dbid = s.dbid ∧ (s.message ≠ .probe → MirrorDown p m)

/-- An attempt after which the probe is sent again, if retries are left. -/
def Attempt.retried : Attempt → Bool
  | .failed _ => true
  | .answered retryRequested => retryRequested

/-- The roles may be swapped: the pair was in sync at the start, and of the first attempt and all
the retries none was good, and the last one failed without any progress of a recovery. -/
structure SwapJustified (cfg : FtsSettings) (m : SegmentConfig) (attempts : List Attempt) :
    Prop where
  in_sync : m.mode = .inSync
  count : attempts.length = cfg.probeRetries + 1
  retried : ∀ a ∈ attempts, a.retried = true
  last : attempts.getLast? = some (.failed false)

/-! ## The invariant of a segment -/

/-- What a segment in a cycle keeps on its own. -/
structure Local (cfg : FtsSettings) (e : FtsSegmentInfo) : Prop where
  retries : e.retryCount ≤ cfg.probeRetries
  unanswered : e.state.isSuccess = false → e.result.isPrimaryAlive = false
  answered : e.state = .probeSuccess →
    e.result.isPrimaryAlive = true ∧ e.result.Asserted e.primary e.mirror
  idle : e.state = .responseProcessed → e.pollEvents.any = false
  sent : ∀ s ∈ e.sent, s.Justified

/-- What the start of the cycle and the catalog say of a segment: `p₀` and `m₀` were its rows, and
`p` and `m` are. -/
structure RowsOf (cfg : FtsSettings) (rows₀ rows : Catalog) (e : FtsSegmentInfo)
    (p₀ m₀ p m : SegmentConfig) : Prop where
  start : OwnPair rows₀ p₀ m₀
  now : OwnPair rows p m
  content₀ : p₀.segindex = e.primary.segindex
  content : p.segindex = e.primary.segindex
  dbids : (p.dbid, m.dbid) = if e.swaps = [] then (p₀.dbid, m₀.dbid) else (m₀.dbid, p₀.dbid)
  swaps : e.swaps.length ≤ 1
  swapped : ∀ attempts ∈ e.swaps, SwapJustified cfg m₀ attempts
  /-- Until the response to the probe is processed, nothing is updated. -/
  probing : e.state.message = some .probe →
    e.primary = p ∧ e.mirror = m ∧ p₀ = p ∧ m₀ = m ∧ e.swaps = []
  target : e.state.message ≠ none → p.dbid = e.primary.dbid
  mirror_down : e.state.message ≠ none → e.state.message ≠ some .probe → MirrorDown p m

structure EntryInv (cfg : FtsSettings) (rows₀ rows : Catalog) (e : FtsSegmentInfo) : Prop where
  own : Local cfg e
  rows : ∃ p₀ m₀ p m, RowsOf cfg rows₀ rows e p₀ m₀ p m

/-- The attempts counted, before the one that is being made ends. -/
def Counted (e : FtsSegmentInfo) : Prop :=
  e.state.message = some .probe →
    e.attempts.length = e.retryCount ∧ ∀ a ∈ e.attempts, a.retried = true

/-- The parts of a segment that no step before the response is processed changes. -/
structure SameSegment (e e' : FtsSegmentInfo) : Prop where
  primary : e'.primary = e.primary
  mirror : e'.mirror = e.mirror
  swaps : e'.swaps = e.swaps
  message : e'.state.message = e.state.message

theorem EntryInv.of_same {cfg : FtsSettings} {rows₀ rows : Catalog} {e e' : FtsSegmentInfo}
    (h : EntryInv cfg rows₀ rows e) (hsame : SameSegment e e') (hown : Local cfg e') :
    EntryInv cfg rows₀ rows e' := by
  obtain ⟨p₀, m₀, p, m, hrows⟩ := h.rows
  refine ⟨hown, p₀, m₀, p, m, ?_⟩
  obtain ⟨hprimary, hmirror, hswaps, hmessage⟩ := hsame
  constructor
  · exact hrows.start
  · exact hrows.now
  · rw [hprimary]
    exact hrows.content₀
  · rw [hprimary]
    exact hrows.content
  · rw [hswaps]
    exact hrows.dbids
  · rw [hswaps]
    exact hrows.swaps
  · rw [hswaps]
    exact hrows.swapped
  · rw [hprimary, hmirror, hswaps, hmessage]
    exact hrows.probing
  · rw [hprimary, hmessage]
    exact hrows.target
  · rw [hmessage]
    exact hrows.mirror_down

/-- The invariant while a pass goes on, before the attempts are counted. -/
structure Attempting (cfg : FtsSettings) (rows₀ rows : Catalog) (primary : SegmentConfig)
    (e : FtsSegmentInfo) : Prop extends EntryInv cfg rows₀ rows e where
  primary_eq : e.primary = primary
  counted : Counted e

/-- The segment waits for something: it is in no final state. -/
structure Waiting (cfg : FtsSettings) (rows₀ rows : Catalog) (primary : SegmentConfig)
    (e : FtsSegmentInfo) : Prop extends Attempting cfg rows₀ rows primary e where
  not_success : e.state.isSuccess = false

section

variable {cfg : FtsSettings} {rows₀ rows : Catalog} {primary : SegmentConfig}
  {e e' : FtsSegmentInfo}

/-- A step that changes only what no invariant speaks of. -/
theorem Waiting.update (h : Waiting cfg rows₀ rows primary e) (hsame : SameSegment e e')
    (hstate : e'.state = e.state) (hresult : e'.result = e.result)
    (hretry : e'.retryCount = e.retryCount) (hattempts : e'.attempts = e.attempts)
    (hsent : ∀ s ∈ e'.sent, s.Justified)
    (hidle : e.state = .responseProcessed → e'.pollEvents.any = false) :
    Waiting cfg rows₀ rows primary e' := by
  have hlocal : Local cfg e' := by
    constructor
    · rw [hretry]
      exact h.own.retries
    · rw [hstate, hresult]
      exact h.own.unanswered
    · rw [hstate, hresult, hsame.primary, hsame.mirror]
      exact h.own.answered
    · rw [hstate]
      exact hidle
    · exact hsent
  refine ⟨⟨h.toEntryInv.of_same hsame hlocal, hsame.primary.trans h.primary_eq, ?_⟩, ?_⟩
  · intro hmessage
    rw [hattempts, hretry]
    exact h.counted (hsame.message ▸ hmessage)
  · rw [hstate]
    exact h.not_success

/-- The connection is worked on. -/
theorem Waiting.io (h : Waiting cfg rows₀ rows primary e) (hp : e.state ≠ .responseProcessed)
    (pollEvents : PollEvents) (pollRevents : PollRevents) (startTime : Int) (conn : Option PgConn)
    (xlogrecptr : Nat) (recoveryMakingProgress : Bool) :
    Waiting cfg rows₀ rows primary { e with
      pollEvents := pollEvents
      pollRevents := pollRevents
      startTime := startTime
      conn := conn
      xlogrecptr := xlogrecptr
      recoveryMakingProgress := recoveryMakingProgress } :=
  h.update ⟨rfl, rfl, rfl, rfl⟩ rfl rfl rfl rfl h.own.sent fun heq => absurd heq hp

theorem nextFailedState_returns {state : FtsMessageState} (hs : state.isSuccess = false)
    (hp : state ≠ .responseProcessed) :
    Returns (nextFailedState state) fun state' =>
      state'.isFailed = true ∧ state'.message = state.message := by
  cases state <;> first
    | exact returns_ok ⟨rfl, rfl⟩
    | exact absurd rfl hp
    | cases hs

theorem Waiting.fail (h : Waiting cfg rows₀ rows primary e) (hp : e.state ≠ .responseProcessed) :
    Returns e.fail fun e' =>
      Waiting cfg rows₀ rows primary e' ∧ e'.state ≠ .responseProcessed := by
  unfold FtsSegmentInfo.fail
  refine returns_bind (nextFailedState_returns h.not_success hp) fun state' hstate => ?_
  obtain ⟨hfailed, hmessage⟩ := hstate
  have hsuccess : state'.isSuccess = false := by cases state' <;> first | rfl | cases hfailed
  have hne : state' ≠ .responseProcessed := by
    rintro rfl
    cases hfailed
  refine returns_pure ⟨⟨⟨h.toEntryInv.of_same ⟨rfl, rfl, rfl, hmessage⟩ ?_, h.primary_eq, ?_⟩,
    hsuccess⟩, hne⟩
  · refine { h.own with unanswered := ?_, answered := ?_, idle := ?_ }
    · intro _
      exact h.own.unanswered h.not_success
    · rintro rfl
      cases hsuccess
    · intro heq
      exact absurd heq hne
  · intro hm
    exact h.counted (hmessage ▸ hm)

theorem sending_ne_processed {state : FtsMessageState} (h : state.sending.isSome = true) :
    state ≠ .responseProcessed := by
  rintro rfl
  cases h

theorem message_of_sending {state : FtsMessageState} {message : FtsMessage}
    (h : state.sending = some message) : state.message = some message := by
  cases state <;> cases h <;> rfl

/-! ## The steps of a pass -/

theorem Waiting.checkIfFailedDueToRecoveryInProgress (h : Waiting cfg rows₀ rows primary e)
    (error : ConnError) :
    Waiting cfg rows₀ rows primary (checkIfFailedDueToRecoveryInProgress error e) := by
  unfold Fts.checkIfFailedDueToRecoveryInProgress
  split
  · split
    · exact h
    · exact h.update ⟨rfl, rfl, rfl, rfl⟩ rfl rfl rfl rfl h.own.sent h.own.idle
  · exact h
  · exact h

theorem Waiting.ftsConnect (h : Waiting cfg rows₀ rows primary e) (o : Outcome) :
    Returns (ftsConnect o e) (Waiting cfg rows₀ rows primary) := by
  unfold Fts.ftsConnect
  split
  · exact returns_pure h
  · split
    · rename_i hsending
      have hp := sending_ne_processed hsending
      dsimp only
      split
      · split
        · exact returns_pure (h.io hp _ _ _ _ _ _)
        · refine Returns.mono (Waiting.fail ?_ hp) fun _ h' => h'.1
          exact h.io hp _ _ _ _ _ _
      · split
        · split
          · exact returns_pure (h.io hp _ _ _ _ _ _)
          · exact returns_pure (h.io hp _ _ _ _ _ _)
          · exact returns_pure (h.io hp _ _ _ _ _ _)
          · refine returns_bind (Waiting.fail (h.io hp _ _ _ _ _ _) hp) fun e' he' =>
              returns_pure ?_
            exact he'.1.checkIfFailedDueToRecoveryInProgress _
        · exact returns_pure (h.io hp _ _ _ _ _ _)
    · exact returns_pure h

theorem Waiting.ftsPoll (h : Waiting cfg rows₀ rows primary e) (now : Int) (o : Outcome) :
    Returns (ftsPoll cfg now o e) (Waiting cfg rows₀ rows primary) := by
  unfold Fts.ftsPoll
  split
  · rename_i hevents
    -- nothing is polled for in the final state
    have hp : e.state ≠ .responseProcessed := by
      intro heq
      rw [h.own.idle heq] at hevents
      cases hevents
    have hrecord : Returns (recordRevents (e.pollEvents.poll o.ready) e) fun e' =>
        Waiting cfg rows₀ rows primary e' ∧ e'.state ≠ .responseProcessed := by
      unfold recordRevents
      split
      · exact returns_pure ⟨h.io hp _ _ _ _ _ _, hp⟩
      · split
        · exact Waiting.fail (h.io hp _ _ _ _ _ _) hp
        · exact returns_pure ⟨h.io hp _ _ _ _ _ _, hp⟩
    refine returns_bind hrecord fun e' he' => ?_
    unfold ftsCheckTimeout
    split
    · exact (he'.1.fail he'.2).mono fun _ h' => h'.1
    · exact returns_pure he'.1
  · exact returns_pure h

theorem Waiting.ftsSend (h : Waiting cfg rows₀ rows primary e) (o : Outcome) :
    Returns (ftsSend rows o e) (Waiting cfg rows₀ rows primary) := by
  unfold Fts.ftsSend
  split
  · rename_i message hsending
    have hp := sending_ne_processed (Option.isSome_iff_exists.mpr ⟨message, hsending⟩)
    split
    · split
      · refine returns_pure (h.update ⟨rfl, rfl, rfl, rfl⟩ rfl rfl rfl rfl ?_
          fun heq => absurd heq hp)
        intro s hs
        rcases List.mem_cons.mp hs with rfl | hs
        · -- the catalog says already what the message is sent for
          have hmessage := message_of_sending hsending
          obtain ⟨p₀, m₀, p, m, hrows⟩ := h.rows
          refine ⟨p, m, hrows.now, hrows.target (by simp [hmessage]), fun hne => ?_⟩
          exact hrows.mirror_down (by simp [hmessage]) (by simpa [hmessage] using hne)
        · exact h.own.sent s hs
      · refine Returns.mono (Waiting.fail ?_ hp) fun _ h' => h'.1
        exact h.io hp _ _ _ _ _ _
    · exact returns_pure h
  · exact returns_pure h

theorem nextSuccessState_returns {state : FtsMessageState} {message : FtsMessage}
    (h : state.sending = some message) :
    Returns (nextSuccessState state) fun state' =>
      state'.isSuccess = true ∧ state'.message = some message := by
  cases state <;> cases h <;> exact returns_ok ⟨rfl, rfl⟩

theorem Waiting.probeRecordResponse (h : Waiting cfg rows₀ rows primary e) {message : FtsMessage}
    (hsending : e.state.sending = some message) {result : FtsResult}
    (hresult : message = .probe →
      result.isPrimaryAlive = true ∧ result.Asserted e.primary e.mirror) :
    Returns (probeRecordResponse result e) fun e' =>
      Attempting cfg rows₀ rows primary e' ∧ e'.result = result ∧
        e'.state.message = some message ∧ e'.state.isSuccess = true := by
  unfold Fts.probeRecordResponse
  refine returns_bind (nextSuccessState_returns hsending) fun state' hstate => returns_pure ?_
  obtain ⟨hsuccess, hmessage⟩ := hstate
  have hmessage' : state'.message = e.state.message := by
    rw [hmessage, message_of_sending hsending]
  refine ⟨⟨h.toEntryInv.of_same ⟨rfl, rfl, rfl, hmessage'⟩ ?_, h.primary_eq, ?_⟩, rfl, hmessage,
    hsuccess⟩
  · refine { h.own with unanswered := ?_, answered := ?_, idle := ?_ }
    · intro hnot
      change state'.isSuccess = false at hnot
      rw [hsuccess] at hnot
      cases hnot
    · rintro rfl
      exact hresult (Option.some.inj hmessage).symm
    · rintro rfl
      cases hsuccess
  · intro hm
    exact h.counted (hmessage' ▸ hm)

theorem Waiting.ftsReceive (h : Waiting cfg rows₀ rows primary e) {pass : Pass}
    (hpass : pass.Asserted rows₀) :
    Returns (ftsReceive (pass.outcome primary.segindex) e)
      (Attempting cfg rows₀ rows primary) := by
  unfold Fts.ftsReceive
  split
  · rename_i message hsending
    have hp := sending_ne_processed (Option.isSome_iff_exists.mpr ⟨message, hsending⟩)
    split
    · split
      · exact (h.fail hp).mono fun _ h' => h'.1.toAttempting
      · rename_i isMirrorAlive isInSync isSyncRepEnabled isRoleMirror retryRequested hreceive
        refine (h.probeRecordResponse hsending fun hprobe => ⟨rfl, ?_⟩).mono fun _ h' => h'.1
        subst hprobe
        obtain ⟨p₀, m₀, p, m, hrows⟩ := h.rows
        obtain ⟨hep, hem, hp₀, hm₀, -⟩ := hrows.probing (message_of_sending hsending)
        have hstart : OwnPair rows₀ e.primary e.mirror := by
          rw [hep, hem, ← hp₀, ← hm₀]
          exact hrows.start
        rw [← h.primary_eq] at hreceive
        exact hpass _ _ hstart _ _ _ _ _ hreceive
    · exact returns_pure h.toAttempting
  · exact returns_pure h.toAttempting

/-- The attempts made when a failed probe is given up. -/
def GivenUp (cfg : FtsSettings) (e : FtsSegmentInfo) : Prop :=
  e.state = .probeFailed →
    e.attempts.length = cfg.probeRetries + 1 ∧ (∀ a ∈ e.attempts, a.retried = true) ∧
      e.attempts.getLast? = some (.failed e.recoveryMakingProgress)

/-- The invariant when the responses are processed. -/
structure Responding (cfg : FtsSettings) (rows₀ rows : Catalog) (e : FtsSegmentInfo) : Prop extends
    EntryInv cfg rows₀ rows e where
  counted : ftsResponseReady e = false → Counted e
  given_up : GivenUp cfg e

theorem retryWaitState_message {state : FtsMessageState}
    (h : state = .probeSuccess ∨ state.isFailed = true) :
    (retryWaitState state).message = state.message := by
  rcases h with rfl | h
  · rfl
  · cases state <;> first | rfl | cases h

theorem retryWaitState_cases (state : FtsMessageState) :
    retryWaitState state = .probeRetryWait ∨ retryWaitState state = .syncrepOffRetryWait ∨
      retryWaitState state = .promoteRetryWait := by
  unfold retryWaitState
  split
  · exact .inl rfl
  · split
    · exact .inr (.inl rfl)
    · exact .inr (.inr rfl)

/-- A retry of the message, or the end of the retries. -/
theorem EntryInv.retryForFtsFailed (h : EntryInv cfg rows₀ rows e) (now : Int)
    (hstate : e.state = .probeSuccess ∨ e.state.isFailed = true)
    (hcount : e.state.message = some .probe →
      e.attempts.length = e.retryCount + 1 ∧ ∀ a ∈ e.attempts, a.retried = true)
    (hlast : e.state = .probeFailed →
      e.attempts.getLast? = some (.failed e.recoveryMakingProgress)) :
    Responding cfg rows₀ rows (retryForFtsFailed cfg now e) := by
  unfold Fts.retryForFtsFailed
  split
  · rename_i hexhausted
    refine ⟨h, fun hnot => ?_, fun hfailed => ?_⟩
    · have hready : ftsResponseReady e = true := by
        unfold ftsResponseReady
        rcases hstate with hstate | hstate
        · rw [hstate]
          rfl
        · rw [hstate, Bool.or_true]
      rw [hready] at hnot
      cases hnot
    · obtain ⟨hlength, hretried⟩ := hcount (by rw [hfailed]; rfl)
      exact ⟨by rw [hlength, hexhausted], hretried, hlast hfailed⟩
  · rename_i hleft
    have hretries := h.own.retries
    have hmessage := retryWaitState_message hstate
    have hcases := retryWaitState_cases e.state
    refine ⟨h.of_same ⟨rfl, rfl, rfl, hmessage⟩ ?_, fun _ hm => ?_, fun hfailed => ?_⟩
    · constructor
      · exact Nat.lt_of_le_of_ne hretries hleft
      · exact fun _ => rfl
      · intro heq
        change retryWaitState e.state = _ at heq
        rw [heq] at hcases
        rcases hcases with h' | h' | h' <;> cases h'
      · exact fun _ => rfl
      · exact h.own.sent
    · exact hcount (hmessage ▸ hm)
    · change retryWaitState e.state = _ at hfailed
      rw [hfailed] at hcases
      rcases hcases with h' | h' | h' <;> cases h'

/-- A segment in which nothing is to be retried. -/
theorem Attempting.responding (h : Attempting cfg rows₀ rows primary e)
    (hne : e.state ≠ .probeFailed) : Responding cfg rows₀ rows e :=
  ⟨h.toEntryInv, fun _ => h.counted, fun hfailed => absurd hfailed hne⟩

/-- The wait before a retry is over. -/
theorem Attempting.resume (h : Attempting cfg rows₀ rows primary e) {state : FtsMessageState}
    (hstate : e.state.isSuccess = false) (hmessage : state.message = e.state.message)
    (hsending : state.sending.isSome = true) :
    Attempting cfg rows₀ rows primary { e with state := state } := by
  refine ⟨h.toEntryInv.of_same ⟨rfl, rfl, rfl, hmessage⟩ ?_, h.primary_eq, ?_⟩
  · refine { h.own with unanswered := ?_, answered := ?_, idle := ?_ }
    · exact fun _ => h.own.unanswered hstate
    · rintro rfl
      cases hsending
    · rintro rfl
      cases hsending
  · intro hm
    exact h.counted (hmessage ▸ hm)

theorem noted_same (e : FtsSegmentInfo) :
    e.noted = { e with attempts := e.noted.attempts } := by
  unfold FtsSegmentInfo.noted
  split <;> rfl

/-- What `processRetry` does: nothing, a retry or the end of one, or the end of a wait. -/
theorem processRetry_cases (now : Int) (e : FtsSegmentInfo) :
    Fts.processRetry cfg now e = e.noted ∨
      ((e.state = .probeSuccess ∨ e.state.isFailed = true) ∧
        Fts.processRetry cfg now e = Fts.retryForFtsFailed cfg now e.noted) ∨
      (e.state.isSuccess = false ∧ ∃ state : FtsMessageState, state.sending.isSome = true ∧
        state.message = e.state.message ∧
          Fts.processRetry cfg now e = { e.noted with state := state }) := by
  have hstate : e.noted.state = e.state := by rw [noted_same]
  unfold Fts.processRetry
  dsimp only
  split
  · rename_i hs
    split
    · exact .inr (.inl ⟨.inl (hstate ▸ hs), rfl⟩)
    · exact .inl rfl
  · rename_i hs
    rw [hstate] at hs
    exact .inr (.inl ⟨.inr (by rw [hs]; rfl), rfl⟩)
  · rename_i hs
    rw [hstate] at hs
    exact .inr (.inl ⟨.inr (by rw [hs]; rfl), rfl⟩)
  · rename_i hs
    rw [hstate] at hs
    exact .inr (.inl ⟨.inr (by rw [hs]; rfl), rfl⟩)
  · rename_i hs
    rw [hstate] at hs
    split
    · exact .inl rfl
    · exact .inr (.inr ⟨by rw [hs]; rfl, _, rfl, by rw [hs]; rfl, rfl⟩)
  · rename_i hs
    rw [hstate] at hs
    split
    · exact .inl rfl
    · exact .inr (.inr ⟨by rw [hs]; rfl, _, rfl, by rw [hs]; rfl, rfl⟩)
  · rename_i hs
    rw [hstate] at hs
    split
    · exact .inl rfl
    · exact .inr (.inr ⟨by rw [hs]; rfl, _, rfl, by rw [hs]; rfl, rfl⟩)
  · exact .inl rfl

/-- A retry leaves the configuration and the message as they are. -/
theorem processRetry_same (now : Int) (e : FtsSegmentInfo) :
    SameSegment e (Fts.processRetry cfg now e) := by
  have hnoted : SameSegment e e.noted := by
    rw [noted_same]
    exact ⟨rfl, rfl, rfl, rfl⟩
  rcases processRetry_cases now e with heq | ⟨hstate, heq⟩ | ⟨-, state, -, hmessage, heq⟩
  · rw [heq]
    exact hnoted
  · rw [heq]
    unfold Fts.retryForFtsFailed
    split
    · exact hnoted
    · refine ⟨hnoted.primary, hnoted.mirror, hnoted.swaps, ?_⟩
      rw [← retryWaitState_message hstate, noted_same]
  · rw [heq]
    exact ⟨hnoted.primary, hnoted.mirror, hnoted.swaps, hmessage⟩

/-- A response that is still to be processed after the retries is the one there was. -/
theorem processRetry_ready {now : Int} (h : ftsResponseReady (Fts.processRetry cfg now e) = true) :
    (Fts.processRetry cfg now e).state = e.state ∧
      (Fts.processRetry cfg now e).result = e.result := by
  have hnoted : e.noted.state = e.state ∧ e.noted.result = e.result := by
    rw [noted_same]
    exact ⟨rfl, rfl⟩
  rcases processRetry_cases now e with heq | ⟨-, heq⟩ | ⟨-, state, hsending, -, heq⟩
  · rw [heq]
    exact hnoted
  · rw [heq] at h ⊢
    unfold Fts.retryForFtsFailed at h ⊢
    split
    · exact hnoted
    · rename_i hleft
      rw [if_neg hleft] at h
      have hcases := retryWaitState_cases e.noted.state
      unfold ftsResponseReady at h
      dsimp only at h
      rcases hcases with hc | hc | hc <;> rw [hc] at h <;> cases h
  · rw [heq] at h
    unfold ftsResponseReady at h
    dsimp only at h
    cases state <;> simp [FtsMessageState.sending, FtsMessageState.isSuccess,
      FtsMessageState.isFailed] at hsending h

/-- **The attempt that has ended is counted**, and made again if it may be. -/
theorem Attempting.processRetry (h : Attempting cfg rows₀ rows primary e) (now : Int) :
    Responding cfg rows₀ rows (processRetry cfg now e) := by
  have hown (attempts : List Attempt) : Local cfg { e with attempts := attempts } :=
    ⟨h.own.retries, h.own.unanswered, h.own.answered, h.own.idle, h.own.sent⟩
  have hinv (attempts : List Attempt) : EntryInv cfg rows₀ rows { e with attempts := attempts } :=
    h.toEntryInv.of_same ⟨rfl, rfl, rfl, rfl⟩ (hown attempts)
  -- one more attempt, which is to be made again
  have hcount (a : Attempt) (ha : a.retried = true) (hm : e.state.message = some .probe) :
      (e.attempts ++ [a]).length = e.retryCount + 1 ∧
        ∀ b ∈ e.attempts ++ [a], b.retried = true := by
    obtain ⟨hlength, hretried⟩ := h.counted hm
    refine ⟨by rw [List.length_append, hlength, List.length_singleton], fun b hb => ?_⟩
    rcases List.mem_append.mp hb with hb | hb
    · exact hretried b hb
    · rwa [List.mem_singleton.mp hb]
  cases hs : e.state with
  | probeSuccess =>
    let e' := { e with attempts := e.attempts ++ [Attempt.answered e.result.retryRequested] }
    have heq : Fts.processRetry cfg now e =
        if e.result.retryRequested && e.mirror.isAlive then Fts.retryForFtsFailed cfg now e'
        else e' := by
      simp only [e', Fts.processRetry, FtsSegmentInfo.noted, hs]
    rw [heq]
    split
    · rename_i hretry
      refine (hinv _).retryForFtsFailed now (.inl hs) (hcount _ ?_) fun hf => ?_
      · exact (Bool.and_eq_true_iff.mp hretry).1
      · cases hs.symm.trans hf
    · refine ⟨hinv _, fun hnot => ?_, fun hf => ?_⟩
      · simp [e', ftsResponseReady, hs, FtsMessageState.isSuccess] at hnot
      · cases hs.symm.trans hf
  | probeFailed =>
    let e' := { e with attempts := e.attempts ++ [Attempt.failed e.recoveryMakingProgress] }
    have heq : Fts.processRetry cfg now e = Fts.retryForFtsFailed cfg now e' := by
      simp only [e', Fts.processRetry, FtsSegmentInfo.noted, hs]
    rw [heq]
    exact (hinv _).retryForFtsFailed now (.inr (by rw [hs]; rfl)) (hcount _ rfl)
      fun _ => List.getLast?_concat
  | syncrepOffFailed =>
    simp only [Fts.processRetry, FtsSegmentInfo.noted, hs]
    refine h.toEntryInv.retryForFtsFailed now (.inr (by rw [hs]; rfl)) (fun hm => ?_) fun hf => ?_
    · simp [hs, FtsMessageState.message] at hm
    · cases hs.symm.trans hf
  | promoteFailed =>
    simp only [Fts.processRetry, FtsSegmentInfo.noted, hs]
    refine h.toEntryInv.retryForFtsFailed now (.inr (by rw [hs]; rfl)) (fun hm => ?_) fun hf => ?_
    · simp [hs, FtsMessageState.message] at hm
    · cases hs.symm.trans hf
  | probeRetryWait =>
    simp only [Fts.processRetry, FtsSegmentInfo.noted, hs]
    split
    · exact h.responding (by simp [hs])
    · exact (h.resume (by rw [hs]; rfl) (by rw [hs]; rfl) rfl).responding (by simp)
  | syncrepOffRetryWait =>
    simp only [Fts.processRetry, FtsSegmentInfo.noted, hs]
    split
    · exact h.responding (by simp [hs])
    · exact (h.resume (by rw [hs]; rfl) (by rw [hs]; rfl) rfl).responding (by simp)
  | promoteRetryWait =>
    simp only [Fts.processRetry, FtsSegmentInfo.noted, hs]
    split
    · exact h.responding (by simp [hs])
    · exact (h.resume (by rw [hs]; rfl) (by rw [hs]; rfl) rfl).responding (by simp)
  | probeSegment | syncrepOffSegment | promoteSegment | syncrepOffSuccess | promoteSuccess
  | responseProcessed =>
    simp only [Fts.processRetry, FtsSegmentInfo.noted, hs]
    exact h.responding (by simp [hs])

end

end Hdb.Fts
