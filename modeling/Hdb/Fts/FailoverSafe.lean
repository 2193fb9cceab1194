import Hdb.Fts.Failover

/-!
# No acknowledged commit is lost

The prober relies on what it was told from the moment an answer "in sync" is on its way until a
mirror is promoted. As long as it does, the setting that makes commits wait stays on, and the mirror
has every commit that was acknowledged without it. What was acknowledged after a wait the mirror has
in any case.
-/

namespace Hdb.Fts

/-! ## Invariants of the prober -/

/-- The catalog holds the rows of the pair; once the mirror is the primary, it has no mirror. -/
structure PairRows (cfg : FailoverConfig) (catalog : Catalog) (p m : SegmentConfig) : Prop extends
    OwnPair catalog p m where
  dbids : (catalog.map (·.dbid)).Nodup
  content : ∀ row ∈ catalog, row.segindex = cfg.content
  segments : ∀ row ∈ catalog, row.dbid = cfg.primaryDbid ∨ row.dbid = cfg.mirrorDbid
  promoted : p.dbid = cfg.mirrorDbid → MirrorDown p m

theorem PairRows.mem_iff' {cfg : FailoverConfig} {rows : Catalog} {p m row : SegmentConfig}
    (h : PairRows cfg rows p m) : row ∈ rows ↔ row = p ∨ row = m := by
  rw [← h.mem_iff]
  refine ⟨fun hrow => ⟨hrow, ?_⟩, fun hrow => hrow.1⟩
  rw [h.content row hrow, h.content p h.mem_primary]

/-- A response to a probe that the prober may read for the segment `e`. -/
structure GoodAnswer (cfg : FailoverConfig) (e : FtsSegmentInfo) (r : FtsResult) : Prop where
  alive : r.isPrimaryAlive = true
  asserted : r.Asserted e.primary e.mirror
  /-- A promoted mirror has no mirror of its own. -/
  alone : e.primary.dbid = cfg.mirrorDbid → r.isMirrorAlive = false ∧ r.isInSync = false

structure FtsInv (cfg : FailoverConfig) (rows : Catalog) (entry : Option FtsSegmentInfo)
    (conn : Option Nat) (nextConn : Nat) (messages : List Message) (responses : List Response)
    (handlers : List Handler) : Prop where
  pair : ∃ p m, PairRows cfg rows p m
  entry_inv : ∀ e ∈ entry, ∃ rows₀, Attempting cfg.settings rows₀ rows e.primary e
  no_entry : entry = none → conn = none
  message_conn : ∀ msg ∈ messages, msg.conn < nextConn
  handler_conn : ∀ h ∈ handlers, h.conn < nextConn
  response_conn : ∀ r ∈ responses, r.conn < nextConn
  /-- What is on the open connection belongs to the message being sent. -/
  message_open : ∀ msg ∈ messages, conn = some msg.conn →
    ∃ e ∈ entry, e.state.message = some msg.message ∧ e.primary.dbid = msg.dbid
  handler_open : ∀ h ∈ handlers, conn = some h.conn →
    ∃ e ∈ entry, e.state.message = some .probe ∧ e.primary.dbid = cfg.primaryDbid
  response_open : ∀ r ∈ responses, conn = some r.conn → ∀ e ∈ entry,
    e.state.message = some .probe → GoodAnswer cfg e r.result
  /-- What a handler has read of the primary's state. -/
  handler_read : ∀ h ∈ handlers, h.response.isPrimaryAlive = true ∧
    (h.response.isInSync = true → h.response.isMirrorAlive = true) ∧
      h.response.isRoleMirror = false
  answer : ∀ e ∈ entry, e.state = .probeSuccess → GoodAnswer cfg e e.result

/-- The prober relies on the mirror being in sync, or is going to. -/
def Relied (cfg : FailoverConfig) (rows : Catalog) (entry : Option FtsSegmentInfo)
    (conn : Option Nat) (responses : List Response) : Prop :=
  (∃ row ∈ rows, row.mode = .inSync) ∨
    (∃ row ∈ rows, row.dbid = cfg.mirrorDbid ∧ row.role = .primary) ∨
      (∃ e ∈ entry, e.state = .probeSuccess ∧ e.result.isInSync = true) ∨
        ∃ r ∈ responses, conn = some r.conn ∧ r.result.isInSync = true ∧
          ∃ e ∈ entry, e.state.message = some .probe

section

variable {cfg : FailoverConfig} {rows : Catalog} {entry : Option FtsSegmentInfo}
  {conn : Option Nat} {nextConn : Nat} {messages : List Message} {responses : List Response}
  {handlers : List Handler}

/-! ## Steps of the prober -/

theorem FtsInv.sound (h : FtsInv cfg rows entry conn nextConn messages responses handlers) :
    Sound rows := by
  obtain ⟨p, m, hpair⟩ := h.pair
  refine ⟨hpair.dbids, fun row hrow => ⟨p, m, hpair.toOwnPair, ?_⟩⟩
  rw [hpair.content row hrow, hpair.content p hpair.mem_primary]

/-- While a segment is probed, its configuration is what the catalog says. -/
theorem FtsInv.probing (h : FtsInv cfg rows entry conn nextConn messages responses handlers)
    {p m : SegmentConfig} (hpair : PairRows cfg rows p m) {e : FtsSegmentInfo} (he : e ∈ entry)
    (hm : e.state.message = some .probe) : e.primary = p ∧ e.mirror = m := by
  obtain ⟨rows₀, hinv⟩ := h.entry_inv e he
  obtain ⟨p₀, m₀, q, q', hrows⟩ := hinv.rows
  obtain ⟨hq, hq', -⟩ := hrows.probing hm
  rw [hq, hq']
  have hcontent : q.segindex = p.segindex := by
    rw [hpair.content q hrows.now.mem_primary, hpair.content p hpair.mem_primary]
  obtain rfl := hpair.eq_primary hrows.now.mem_primary hcontent hrows.now.primary
  refine ⟨rfl, ?_⟩
  rcases hpair.mem_iff'.mp hrows.now.mem_mirror.1 with rfl | rfl
  · have hrole := hrows.now.mirror
    rw [hrows.now.primary] at hrole
    cases hrole
  · rfl

theorem FtsInv.start (h : FtsInv cfg rows none conn nextConn messages responses handlers)
    {e : FtsSegmentInfo} (he : (ftsWalRepInitProbeContext rows).perSegInfos.head? = some e) :
    FtsInv cfg rows (some e) conn nextConn messages responses handlers ∧
      (Relied cfg rows (some e) conn responses → Relied cfg rows none conn responses) := by
  have hmem := List.mem_of_mem_head? he
  have hconn := h.no_entry rfl
  subst hconn
  have hbetween : Between cfg.settings rows rows e := init_between h.sound e hmem
  obtain ⟨p, m, -, rfl⟩ := mem_init h.sound hmem
  refine ⟨?_, ?_⟩
  · refine { h with
      entry_inv := ?_, no_entry := ?_, message_open := ?_, handler_open := ?_,
      response_open := ?_, answer := ?_ }
    · intro e he
      cases he
      exact ⟨rows, hbetween.toEntryInv, rfl, hbetween.counted⟩
    · intro hf
      cases hf
    · intro _ _ hf
      cases hf
    · intro _ _ hf
      cases hf
    · intro _ _ hf
      cases hf
    · intro e he hs
      cases he
      cases hs
  · rintro (hrow | hrow | ⟨e, he, hs, -⟩ | ⟨r, -, hf, -⟩)
    · exact .inl hrow
    · exact .inr (.inl hrow)
    · cases he
      cases hs
    · cases hf

theorem FtsInv.send {e : FtsSegmentInfo} {message : FtsMessage}
    (h : FtsInv cfg rows (some e) none nextConn messages responses handlers)
    (hsending : e.state.sending = some message) :
    FtsInv cfg rows (some e) (some nextConn) (nextConn + 1)
        (⟨nextConn, message, e.primary.dbid⟩ :: messages) responses handlers ∧
      (Relied cfg rows (some e) (some nextConn) responses →
        Relied cfg rows (some e) none responses) := by
  refine ⟨?_, ?_⟩
  · refine { h with
      no_entry := ?_, message_conn := ?_, handler_conn := ?_, response_conn := ?_,
      message_open := ?_, handler_open := ?_, response_open := ?_ }
    · intro hf
      cases hf
    · refine List.forall_mem_cons.mpr ⟨Nat.lt_succ_self _, fun msg hmsg => ?_⟩
      exact Nat.lt_succ_of_lt (h.message_conn msg hmsg)
    · exact fun x hx => Nat.lt_succ_of_lt (h.handler_conn x hx)
    · exact fun r hr => Nat.lt_succ_of_lt (h.response_conn r hr)
    · intro msg hmsg hconn
      rcases List.mem_cons.mp hmsg with rfl | hmsg
      · exact ⟨e, rfl, message_of_sending hsending, rfl⟩
      · exact absurd (Option.some.inj hconn) (Nat.ne_of_gt (h.message_conn msg hmsg))
    · intro x hx hconn
      exact absurd (Option.some.inj hconn) (Nat.ne_of_gt (h.handler_conn x hx))
    · intro r hr hconn
      exact absurd (Option.some.inj hconn) (Nat.ne_of_gt (h.response_conn r hr))
  · rintro (hrow | hrow | he | ⟨r, hr, hconn, -⟩)
    · exact .inl hrow
    · exact .inr (.inl hrow)
    · exact .inr (.inr (.inl he))
    · exact absurd (Option.some.inj hconn) (Nat.ne_of_gt (h.response_conn r hr))

/-- The entry goes on with the same message. -/
theorem FtsInv.update {e e' : FtsSegmentInfo}
    (h : FtsInv cfg rows (some e) conn nextConn messages responses handlers)
    (hinv : ∃ rows₀, Attempting cfg.settings rows₀ rows e'.primary e')
    (hprimary : e'.primary = e.primary) (hmirror : e'.mirror = e.mirror)
    (hmessage : e'.state.message = e.state.message)
    (hanswer : e'.state = .probeSuccess → GoodAnswer cfg e' e'.result) :
    FtsInv cfg rows (some e') conn nextConn messages responses handlers := by
  refine { h with
    entry_inv := ?_, no_entry := ?_, message_open := ?_, handler_open := ?_, response_open := ?_,
    answer := ?_ }
  · intro e₁ he₁
    cases he₁
    exact hinv
  · intro hf
    cases hf
  · intro msg hmsg hconn
    obtain ⟨e₁, he₁, hm, hd⟩ := h.message_open msg hmsg hconn
    cases he₁
    exact ⟨e', rfl, by rw [hmessage, hm], by rw [hprimary, hd]⟩
  · intro x hx hconn
    obtain ⟨e₁, he₁, hm, hd⟩ := h.handler_open x hx hconn
    cases he₁
    exact ⟨e', rfl, by rw [hmessage, hm], by rw [hprimary, hd]⟩
  · intro r hr hconn e₁ he₁ hm
    cases he₁
    obtain ⟨halive, hasserted, halone⟩ := h.response_open r hr hconn e rfl (hmessage ▸ hm)
    exact ⟨halive, by rwa [hprimary, hmirror], by rwa [hprimary]⟩
  · intro e₁ he₁ hs
    cases he₁
    exact hanswer hs

theorem probeRecordResponse_same {e e' : FtsSegmentInfo} {r : FtsResult}
    (h : probeRecordResponse r e = .ok e') : e'.primary = e.primary ∧ e'.mirror = e.mirror := by
  unfold probeRecordResponse at h
  cases hs : nextSuccessState e.state with
  | error err =>
    rw [hs] at h
    cases h
  | ok state =>
    rw [hs] at h
    cases h
    exact ⟨rfl, rfl⟩

theorem FtsInv.receive {e e' : FtsSegmentInfo} {response : Response}
    (h : FtsInv cfg rows (some e) (some response.conn) nextConn messages responses handlers)
    (hsending : e.state.sending.isSome = true) (hresponse : response ∈ responses)
    (he' : probeRecordResponse response.result e = .ok e') :
    FtsInv cfg rows (some e') (some response.conn) nextConn messages responses handlers ∧
      (Relied cfg rows (some e') (some response.conn) responses →
        Relied cfg rows (some e) (some response.conn) responses) := by
  obtain ⟨message, hsending⟩ := Option.isSome_iff_exists.mp hsending
  have hmessage := message_of_sending hsending
  obtain ⟨rows₀, hinv⟩ := h.entry_inv e rfl
  have hnot : e.state.isSuccess = false := by
    cases hs : e.state <;> rw [hs] at hsending <;> first | rfl | cases hsending
  have hgood (hprobe : message = .probe) : GoodAnswer cfg e response.result := by
    subst hprobe
    exact h.response_open response hresponse rfl e rfl hmessage
  obtain ⟨e₁, he₁, hinv₁, hresult, hmessage₁, -⟩ :=
    (Waiting.mk hinv hnot).probeRecordResponse hsending
      fun hprobe => ⟨(hgood hprobe).alive, (hgood hprobe).asserted⟩
  rw [he'] at he₁
  cases he₁
  have hsame := probeRecordResponse_same he'
  refine ⟨h.update ⟨rows₀, ?_⟩ hsame.1 hsame.2 (by rw [hmessage₁, hmessage]) fun hs => ?_, ?_⟩
  · rw [hsame.1]
    exact hinv₁
  · have hprobe : message = .probe := by
      rw [hs] at hmessage₁
      exact (Option.some.inj hmessage₁).symm
    obtain ⟨halive, hasserted, halone⟩ := hgood hprobe
    rw [hresult]
    exact ⟨halive, by rwa [hsame.1, hsame.2], by rwa [hsame.1]⟩
  · rintro (hrow | hrow | ⟨e₁, he₁, hs, hsync⟩ | ⟨r, hr, hconn, hsync, e₁, he₁, hm⟩)
    · exact .inl hrow
    · exact .inr (.inl hrow)
    · cases he₁
      rw [hs] at hmessage₁
      refine .inr (.inr (.inr ⟨response, hresponse, rfl, hresult ▸ hsync, e, rfl, ?_⟩))
      rw [hmessage, ← hmessage₁]
      rfl
    · cases he₁
      refine .inr (.inr (.inr ⟨r, hr, hconn, hsync, e, rfl, ?_⟩))
      rw [hmessage, ← hmessage₁, hm]

theorem FtsInv.fail {e e' : FtsSegmentInfo} {recoveryMakingProgress : Bool}
    (h : FtsInv cfg rows (some e) conn nextConn messages responses handlers)
    (hsending : e.state.sending.isSome = true)
    (he' : { e with recoveryMakingProgress := recoveryMakingProgress }.fail = .ok e') :
    FtsInv cfg rows (some e') conn nextConn messages responses handlers ∧
      (Relied cfg rows (some e') conn responses → Relied cfg rows (some e) conn responses) := by
  obtain ⟨rows₀, hinv⟩ := h.entry_inv e rfl
  have hp := sending_ne_processed hsending
  have hnot : e.state.isSuccess = false := by
    cases hs : e.state <;> rw [hs] at hsending <;> first | rfl | cases hsending
  obtain ⟨e₁, he₁, hinv₁, -⟩ :=
    Waiting.fail ((Waiting.mk hinv hnot).io hp e.pollEvents e.pollRevents e.startTime e.conn
      e.xlogrecptr recoveryMakingProgress) hp
  have he₁' : e' = e₁ := Except.ok.inj (he'.symm.trans he₁)
  subst he₁'
  obtain ⟨state', hstate', hfailed, hmessage⟩ := nextFailedState_returns hnot hp
  have heq : e' = { e with
      recoveryMakingProgress := recoveryMakingProgress, state := state' } := by
    have hfail : FtsSegmentInfo.fail { e with recoveryMakingProgress := recoveryMakingProgress } =
        (nextFailedState e.state).bind fun state => .ok { e with
          recoveryMakingProgress := recoveryMakingProgress, state := state } := rfl
    rw [hfail, hstate'] at he'
    exact (Except.ok.inj he').symm
  have hsuccess : e'.state ≠ .probeSuccess := by
    intro hs
    have hnot' := hinv₁.not_success
    rw [hs] at hnot'
    cases hnot'
  have hmessage' : e'.state.message = e.state.message := by
    rw [heq]
    exact hmessage
  refine ⟨h.update ⟨rows₀, ?_⟩ hinv₁.primary_eq ?_ hmessage' (fun hs => absurd hs hsuccess), ?_⟩
  · rw [hinv₁.primary_eq]
    exact hinv₁.toAttempting
  · rw [heq]
  · rintro (hrow | hrow | ⟨e₁, he₁, hs, hsync⟩ | ⟨r, hr, hconn, hsync, e₁, he₁, hm⟩)
    · exact .inl hrow
    · exact .inr (.inl hrow)
    · cases he₁
      exact absurd hs hsuccess
    · cases he₁
      exact .inr (.inr (.inr ⟨r, hr, hconn, hsync, e, rfl, by rw [← hmessage', hm]⟩))

/-- The catalog after a response: it is still that of the pair. -/
theorem pairRows_of_change {rows' : Catalog} {e : FtsSegmentInfo} {p m : SegmentConfig}
    (hpair : PairRows cfg rows p m) (htouch : Touches [e.primary.segindex] rows rows')
    (hchange : CatalogChange e rows rows')
    (halone : e.state = .probeSuccess → GoodAnswer cfg e e.result) :
    ∃ p' m', PairRows cfg rows' p' m' := by
  have hdbids : (rows'.map (·.dbid)).Nodup := by
    rw [htouch.dbids]
    exact hpair.dbids
  have hcontent : ∀ row ∈ rows', row.segindex = cfg.content := by
    intro row hrow
    have hmem : row.segindex ∈ rows.map (·.segindex) := by
      rw [← htouch.segindexes]
      exact List.mem_map_of_mem hrow
    obtain ⟨row', hrow', heq⟩ := List.mem_map.mp hmem
    rw [← heq]
    exact hpair.content row' hrow'
  have hsegments : ∀ row ∈ rows', row.dbid = cfg.primaryDbid ∨ row.dbid = cfg.mirrorDbid := by
    intro row hrow
    have hmem : row.dbid ∈ rows.map (·.dbid) := by
      rw [← htouch.dbids]
      exact List.mem_map_of_mem hrow
    obtain ⟨row', hrow', heq⟩ := List.mem_map.mp hmem
    rw [← heq]
    exact hpair.segments row' hrow'
  rcases hchange with rfl | ⟨hs, hnow⟩ | ⟨-, -, hnow⟩
  · exact ⟨p, m, hpair⟩
  · refine ⟨_, _, hnow, hdbids, hcontent, hsegments, fun hdbid => ?_⟩
    obtain ⟨hdead, hnot⟩ := (halone hs).alone hdbid
    rw [hdead, hnot]
    exact ⟨rfl, rfl⟩
  · exact ⟨_, _, hnow, hdbids, hcontent, hsegments, fun _ => ⟨rfl, rfl⟩⟩

/-- What the catalog says after a response, the prober relied on before. -/
theorem relied_of_change {rows' : Catalog} {e : FtsSegmentInfo} {p m p' m' : SegmentConfig}
    (hpair : PairRows cfg rows p m)
    (hprobing : e.state.message = some .probe → e.primary = p ∧ e.mirror = m)
    (hpair' : PairRows cfg rows' p' m') (hchange : CatalogChange e rows rows') {row : SegmentConfig}
    (hrow : row ∈ rows')
    (hstated : row.mode = .inSync ∨ (row.dbid = cfg.mirrorDbid ∧ row.role = .primary)) :
    (∃ row ∈ rows, row.mode = .inSync) ∨
      (∃ row ∈ rows, row.dbid = cfg.mirrorDbid ∧ row.role = .primary) ∨
        (e.state = .probeSuccess ∧ e.result.isInSync = true) := by
  -- the rows of the catalog, of which the change says what they are
  have hrows (q q' : SegmentConfig) (h : OwnPair rows' q q') : row = q ∨ row = q' :=
    h.mem_iff.mp ⟨hrow, by rw [hpair'.content row hrow, hpair'.content q h.mem_primary]⟩
  rcases hchange with rfl | ⟨hs, hnow⟩ | ⟨hs, hsync, -⟩
  · rcases hstated with hmode | hrole
    · exact .inl ⟨row, hrow, hmode⟩
    · exact .inr (.inl ⟨row, hrow, hrole⟩)
  · rcases hstated with hmode | ⟨hdbid, hrole⟩
    · refine .inr (.inr ⟨hs, ?_⟩)
      rcases hrows _ _ hnow with rfl | rfl <;>
      · cases hb : e.result.isInSync with
        | true => rfl
        | false =>
          rw [hb] at hmode
          cases hmode
    · rcases hrows _ _ hnow with rfl | rfl
      · have hprimary := (hprobing (by rw [hs]; rfl)).1
        exact .inr (.inl ⟨p, hpair.mem_primary, hprimary ▸ hdbid, hpair.primary⟩)
      · cases hrole
  · have hmirror := (hprobing (by rw [hs]; rfl)).2
    exact .inl ⟨m, hpair.mem_mirror.1, hmirror ▸ hsync⟩

/-- The prober closes its connection. -/
theorem FtsInv.close {e : FtsSegmentInfo}
    (h : FtsInv cfg rows (some e) conn nextConn messages responses handlers) :
    FtsInv cfg rows (some e) none nextConn messages responses handlers ∧
      (Relied cfg rows (some e) none responses → Relied cfg rows (some e) conn responses) := by
  refine ⟨{ h with no_entry := ?_, message_open := ?_, handler_open := ?_, response_open := ?_ },
    ?_⟩
  · exact fun _ => rfl
  · intro _ _ hf
    cases hf
  · intro _ _ hf
    cases hf
  · intro _ _ hf
    cases hf
  · rintro (hrow | hrow | he | ⟨_, _, hf, -⟩)
    · exact .inl hrow
    · exact .inr (.inl hrow)
    · exact .inr (.inr (.inl he))
    · cases hf

theorem not_probeSuccess_of_not_ready {e : FtsSegmentInfo} (h : ftsResponseReady e = false) :
    e.state ≠ .probeSuccess := by
  intro hs
  unfold ftsResponseReady at h
  rw [hs] at h
  cases h

/-- Nothing is to be processed, or the message is tried again. -/
theorem FtsInv.retry {e : FtsSegmentInfo} {now : Int}
    (h : FtsInv cfg rows (some e) conn nextConn messages responses handlers)
    (hready : ftsResponseReady (processRetry cfg.settings now e) = false) :
    FtsInv cfg rows (some (processRetry cfg.settings now e))
        (if ftsResponseReady e then none else conn) nextConn messages responses handlers ∧
      (Relied cfg rows (some (processRetry cfg.settings now e))
          (if ftsResponseReady e then none else conn) responses →
        Relied cfg rows (some e) conn responses) := by
  have hsame : SameSegment e (processRetry cfg.settings now e) := processRetry_same now e
  have hne := not_probeSuccess_of_not_ready hready
  obtain ⟨rows₀, hinv⟩ := h.entry_inv e rfl
  have hresponding := hinv.processRetry now
  have hup : FtsInv cfg rows (some (processRetry cfg.settings now e)) conn nextConn messages
      responses handlers :=
    h.update ⟨rows₀, hresponding.toEntryInv, rfl, hresponding.counted hready⟩ hsame.primary
      hsame.mirror hsame.message fun hs => absurd hs hne
  have hrelied : Relied cfg rows (some (processRetry cfg.settings now e)) conn responses →
      Relied cfg rows (some e) conn responses := by
    rintro (hrow | hrow | ⟨e₁, he₁, hs, -⟩ | ⟨r, hr, hconn, hsync, e₁, he₁, hm⟩)
    · exact .inl hrow
    · exact .inr (.inl hrow)
    · cases he₁
      exact absurd hs hne
    · cases he₁
      exact .inr (.inr (.inr ⟨r, hr, hconn, hsync, e, rfl, by rw [← hsame.message, hm]⟩))
  split
  · exact ⟨hup.close.1, fun hr => hrelied (hup.close.2 hr)⟩
  · exact ⟨hup, hrelied⟩

/-- **A response is processed.** -/
theorem FtsInv.respond {e e' : FtsSegmentInfo} {rows' : Catalog} {b : Bool} {now : Int}
    (h : FtsInv cfg rows (some e) conn nextConn messages responses handlers)
    (hready : ftsResponseReady (processRetry cfg.settings now e) = true)
    (hrespond : respond (processRetry cfg.settings now e) rows = .ok (e', rows', b)) :
    FtsInv cfg rows' (some e'.reset) none nextConn messages responses handlers ∧
      (Relied cfg rows' (some e'.reset) none responses →
        Relied cfg rows (some e) conn responses) := by
  have hsame : SameSegment e (processRetry cfg.settings now e) := processRetry_same now e
  obtain ⟨hstate, hresult⟩ := processRetry_ready hready
  obtain ⟨rows₀, hinv⟩ := h.entry_inv e rfl
  obtain ⟨p, m, hpair⟩ := h.pair
  obtain ⟨r, hr, hresponded⟩ := (hinv.processRetry now).respond hpair.dbids hready
  rw [hrespond] at hr
  cases hr
  obtain ⟨htouch, hbetween, -, hchange⟩ := hresponded
  have hne := not_probeSuccess_of_not_ready hbetween.not_ready
  have halone : (processRetry cfg.settings now e).state = .probeSuccess →
      GoodAnswer cfg (processRetry cfg.settings now e)
      (processRetry cfg.settings now e).result := by
    intro hs
    obtain ⟨halive, hasserted, halone⟩ := h.answer e rfl (hstate ▸ hs)
    rw [hresult]
    exact ⟨halive, by rwa [hsame.primary, hsame.mirror], by rwa [hsame.primary]⟩
  have hprobing : (processRetry cfg.settings now e).state.message = some .probe →
      (processRetry cfg.settings now e).primary = p ∧
        (processRetry cfg.settings now e).mirror = m := by
    intro hm
    rw [hsame.primary, hsame.mirror]
    exact h.probing hpair rfl (hsame.message ▸ hm)
  obtain ⟨p', m', hpair'⟩ := pairRows_of_change hpair htouch hchange halone
  refine ⟨?_, ?_⟩
  · refine { h with
      pair := ⟨p', m', hpair'⟩, entry_inv := ?_, no_entry := fun _ => rfl, message_open := ?_,
      handler_open := ?_, response_open := ?_, answer := ?_ }
    · intro e₁ he₁
      cases he₁
      exact ⟨rows₀, hbetween.toEntryInv, rfl, hbetween.counted⟩
    · intro _ _ hf
      cases hf
    · intro _ _ hf
      cases hf
    · intro _ _ hf
      cases hf
    · intro e₁ he₁ hs
      cases he₁
      exact absurd hs hne
  · have hcatalog {row : SegmentConfig} (hrow : row ∈ rows')
        (hstated : row.mode = .inSync ∨ (row.dbid = cfg.mirrorDbid ∧ row.role = .primary)) :
        Relied cfg rows (some e) conn responses := by
      rcases relied_of_change hpair hprobing hpair' hchange hrow hstated with hs | hs | ⟨hs, hsync⟩
      · exact .inl hs
      · exact .inr (.inl hs)
      · exact .inr (.inr (.inl ⟨e, rfl, hstate ▸ hs, hresult ▸ hsync⟩))
    rintro (⟨row, hrow, hmode⟩ | ⟨row, hrow, hrole⟩ | ⟨e₁, he₁, hs, -⟩ | ⟨_, _, hf, -⟩)
    · exact hcatalog hrow (.inl hmode)
    · exact hcatalog hrow (.inr hrole)
    · cases he₁
      exact absurd hs hne
    · cases hf

/-- The cycle ends. -/
theorem FtsInv.finish {e : FtsSegmentInfo}
    (h : FtsInv cfg rows (some e) conn nextConn messages responses handlers) :
    FtsInv cfg rows none none nextConn messages responses handlers ∧
      (Relied cfg rows none none responses → Relied cfg rows (some e) conn responses) := by
  refine ⟨{ h with
    entry_inv := ?_, no_entry := fun _ => rfl, message_open := ?_, handler_open := ?_,
    response_open := ?_, answer := ?_ }, ?_⟩
  · intro _ hf
    cases hf
  · intro _ _ hf
    cases hf
  · intro _ _ hf
    cases hf
  · intro _ _ hf
    cases hf
  · intro _ hf
    cases hf
  · rintro (hrow | hrow | ⟨_, hf, -⟩ | ⟨_, _, hf, -⟩)
    · exact .inl hrow
    · exact .inr (.inl hrow)
    · cases hf
    · cases hf

/-! ## Messages at the segments -/

theorem FtsInv.receiveProbe (h : FtsInv cfg rows entry conn nextConn messages responses handlers)
    {k : Nat} (hmsg : (⟨k, .probe, cfg.primaryDbid⟩ : Message) ∈ messages) (p : Primary)
    (inGracePeriod : Bool) :
    FtsInv cfg rows entry conn nextConn (messages.erase ⟨k, .probe, cfg.primaryDbid⟩) responses
      (⟨k, getMirrorStatus p inGracePeriod⟩ :: handlers) := by
  refine { h with
    message_conn := ?_, handler_conn := ?_, message_open := ?_, handler_open := ?_,
    handler_read := ?_ }
  · exact fun msg hm => h.message_conn msg (List.mem_of_mem_erase hm)
  · exact List.forall_mem_cons.mpr ⟨h.message_conn _ hmsg, h.handler_conn⟩
  · exact fun msg hm => h.message_open msg (List.mem_of_mem_erase hm)
  · exact List.forall_mem_cons.mpr ⟨h.message_open _ hmsg, h.handler_open⟩
  · refine List.forall_mem_cons.mpr ⟨⟨rfl, fun hsync => ?_, rfl⟩, h.handler_read⟩
    exact (Bool.and_eq_true_iff.mp hsync).1

theorem answerProbe_snd (p : Primary) (r : FtsResult) :
    (answerProbe p r).2.isPrimaryAlive = r.isPrimaryAlive ∧
      (answerProbe p r).2.isMirrorAlive = r.isMirrorAlive ∧
        (answerProbe p r).2.isInSync = r.isInSync ∧
          (answerProbe p r).2.isRoleMirror = r.isRoleMirror ∧
            (r.isMirrorAlive = true → (answerProbe p r).2.isSyncRepEnabled = true) := by
  unfold answerProbe
  split
  · exact ⟨rfl, rfl, rfl, rfl, fun _ => rfl⟩
  · rename_i hnot
    refine ⟨rfl, rfl, rfl, rfl, fun hup => ?_⟩
    simpa [hup] using hnot

theorem FtsInv.answerProbe (h : FtsInv cfg rows entry conn nextConn messages responses handlers)
    {handler : Handler} (hmem : handler ∈ handlers) (p : Primary) :
    FtsInv cfg rows entry conn nextConn messages
        (⟨handler.conn, (answerProbe p handler.response).2⟩ :: responses)
        (handlers.erase handler) ∧
      (Relied cfg rows entry conn
          (⟨handler.conn, (answerProbe p handler.response).2⟩ :: responses) →
        Relied cfg rows entry conn responses ∨ handler.response.isInSync = true) := by
  obtain ⟨halive, hup, hsync, hrole, henabled⟩ := answerProbe_snd p handler.response
  refine ⟨?_, ?_⟩
  · refine { h with
      handler_conn := ?_, response_conn := ?_, handler_open := ?_, response_open := ?_,
      handler_read := ?_ }
    · exact fun x hx => h.handler_conn x (List.mem_of_mem_erase hx)
    · exact List.forall_mem_cons.mpr ⟨h.handler_conn _ hmem, h.response_conn⟩
    · exact fun x hx => h.handler_open x (List.mem_of_mem_erase hx)
    · refine List.forall_mem_cons.mpr ⟨fun hconn e he _ => ?_, h.response_open⟩
      obtain ⟨e', he', -, hdbid⟩ := h.handler_open handler hmem hconn
      obtain rfl : e = e' := Option.mem_unique he he'
      obtain ⟨hread, hread_sync, hread_role⟩ := h.handler_read handler hmem
      refine ⟨halive.trans hread, ⟨?_, ?_, ?_⟩, fun hd => absurd (hdbid.symm.trans hd) cfg.ne⟩
      · rw [hsync, hup]
        exact hread_sync
      · rw [hup]
        exact henabled
      · rw [hrole, hread_role]
        exact Bool.noConfusion
    · exact fun x hx => h.handler_read x (List.mem_of_mem_erase hx)
  · rintro (hrow | hrow | he | ⟨r, hr, hconn, hin, he⟩)
    · exact .inl (.inl hrow)
    · exact .inl (.inr (.inl hrow))
    · exact .inl (.inr (.inr (.inl he)))
    · rcases List.mem_cons.mp hr with rfl | hr
      · exact .inr (hsync ▸ hin)
      · exact .inl (.inr (.inr (.inr ⟨r, hr, hconn, hin, he⟩)))

/-- A message of which the answer is not read as that of a probe in sync. -/
theorem FtsInv.answerMessage
    (h : FtsInv cfg rows entry conn nextConn messages responses handlers) {msg : Message}
    (hmsg : msg ∈ messages) {r : FtsResult}
    (hgood : ∀ e ∈ entry, e.state.message = some .probe → e.state.message = some msg.message →
      e.primary.dbid = msg.dbid → GoodAnswer cfg e r ∧ r.isInSync = false) :
    FtsInv cfg rows entry conn nextConn (messages.erase msg) (⟨msg.conn, r⟩ :: responses) handlers ∧
      (Relied cfg rows entry conn (⟨msg.conn, r⟩ :: responses) →
        Relied cfg rows entry conn responses) := by
  have hopen (hconn : conn = some msg.conn) (e : FtsSegmentInfo) (he : e ∈ entry)
      (hm : e.state.message = some .probe) : GoodAnswer cfg e r ∧ r.isInSync = false := by
    obtain ⟨e', he', hm', hd⟩ := h.message_open msg hmsg hconn
    obtain rfl : e = e' := Option.mem_unique he he'
    exact hgood e he hm hm' hd
  refine ⟨?_, ?_⟩
  · refine { h with
      message_conn := ?_, response_conn := ?_, message_open := ?_, response_open := ?_ }
    · exact fun x hx => h.message_conn x (List.mem_of_mem_erase hx)
    · exact List.forall_mem_cons.mpr ⟨h.message_conn _ hmsg, h.response_conn⟩
    · exact fun x hx => h.message_open x (List.mem_of_mem_erase hx)
    · refine List.forall_mem_cons.mpr ⟨fun hconn e he hm => ?_, h.response_open⟩
      exact (hopen hconn e he hm).1
  · rintro (hrow | hrow | he | ⟨r', hr, hconn, hin, e, he, hm⟩)
    · exact .inl hrow
    · exact .inr (.inl hrow)
    · exact .inr (.inr (.inl he))
    · rcases List.mem_cons.mp hr with rfl | hr
      · rw [(hopen hconn e he hm).2] at hin
        cases hin
      · exact .inr (.inr (.inr ⟨r', hr, hconn, hin, e, he, hm⟩))

/-- The mirror answers as one that has no mirror. -/
theorem FtsInv.mirrorMessage
    (h : FtsInv cfg rows entry conn nextConn messages responses handlers) {msg : Message}
    (hdbid : msg.dbid = cfg.mirrorDbid)
    (promoted isSyncRepEnabled retryRequested : Bool) {e : FtsSegmentInfo} (he : e ∈ entry)
    (hm : e.state.message = some .probe) (hd : e.primary.dbid = msg.dbid) :
    GoodAnswer cfg e (mirrorResponse promoted isSyncRepEnabled retryRequested) ∧
      (mirrorResponse promoted isSyncRepEnabled retryRequested).isInSync = false := by
  obtain ⟨p, m, hpair⟩ := h.pair
  obtain ⟨hp, hm⟩ := h.probing hpair he hm
  obtain ⟨hdown, hmode⟩ := hpair.promoted (by rw [← hp, hd, hdbid])
  cases promoted with
  | true =>
    exact ⟨⟨rfl, ⟨Bool.noConfusion, Bool.noConfusion, Bool.noConfusion⟩, fun _ => ⟨rfl, rfl⟩⟩, rfl⟩
  | false =>
    refine ⟨⟨rfl, ⟨Bool.noConfusion, Bool.noConfusion, fun _ _ => ?_⟩, fun _ => ⟨rfl, rfl⟩⟩, rfl⟩
    exact ⟨rfl, hm ▸ hdown, hm ▸ hpair.mode ▸ hmode, hp ▸ hmode, rfl⟩

/-- While the prober waits for the primary to go on without its mirror, it relies on nothing. -/
theorem FtsInv.not_relied (h : FtsInv cfg rows entry conn nextConn messages responses handlers)
    {k : Nat} (hmsg : (⟨k, .syncrepOff, cfg.primaryDbid⟩ : Message) ∈ messages)
    (hconn : conn = some k) : ¬ Relied cfg rows entry conn responses := by
  obtain ⟨e, he, hmessage, hdbid⟩ := h.message_open _ hmsg hconn
  obtain ⟨rows₀, hinv⟩ := h.entry_inv e he
  obtain ⟨p₀, m₀, q, q', hrows⟩ := hinv.rows
  obtain ⟨p, m, hpair⟩ := h.pair
  have htarget := hrows.target (by rw [hmessage]; exact Option.some_ne_none _)
  obtain ⟨-, hmode⟩ := hrows.mirror_down (by rw [hmessage]; exact Option.some_ne_none _)
    (by rw [hmessage]; simp)
  have hmem (row : SegmentConfig) (hrow : row ∈ rows) : row = q ∨ row = q' := by
    refine hrows.now.mem_iff.mp ⟨hrow, ?_⟩
    rw [hpair.content row hrow, hpair.content q hrows.now.mem_primary]
  rintro (⟨row, hrow, hsync⟩ | ⟨row, hrow, hd, hrole⟩ | ⟨e', he', hs, -⟩ |
    ⟨r, -, -, -, e', he', hm⟩)
  · rcases hmem row hrow with rfl | rfl
    · rw [hmode] at hsync
      cases hsync
    · rw [← hrows.now.mode, hmode] at hsync
      cases hsync
  · rcases hmem row hrow with rfl | rfl
    · exact cfg.ne (hdbid.symm.trans (htarget.symm.trans hd))
    · rw [hrows.now.mirror] at hrole
      cases hrole
  · obtain rfl : e = e' := Option.mem_unique he he'
    rw [hs] at hmessage
    cases hmessage
  · obtain rfl : e = e' := Option.mem_unique he he'
    rw [hm] at hmessage
    cases hmessage

end

/-! ## The invariant -/

structure FailoverInv (cfg : FailoverConfig) (st : FailoverState) : Prop where
  fts : FtsInv cfg st.catalog st.entry st.conn st.nextConn st.messages st.responses
    st.primary.handlers
  lsn : st.primary.lsn ≤ st.received
  replicated : ∀ lsn ∈ st.primary.ackedReplicated, lsn ≤ st.received
  /-- As long as the prober relies on the mirror, commits are made to wait, or are about to be. -/
  relied : Relied cfg st.catalog st.entry st.conn st.responses →
    st.primary.synchronousStandbyNames = true ∧
      ∀ lsn ∈ st.primary.ackedAlone, lsn ≤ st.received

theorem failoverStart_inv (cfg : FailoverConfig) (mirrorStatus : Status) :
    FailoverInv cfg (failoverStart cfg mirrorStatus) := by
  have hpair : PairRows cfg (failoverStart cfg mirrorStatus).catalog
      ⟨cfg.primaryDbid, cfg.content, .primary, .up, .notInSync⟩
      ⟨cfg.mirrorDbid, cfg.content, .mirror, mirrorStatus, .notInSync⟩ := by
    refine ⟨⟨⟨rfl, rfl, rfl, rfl, by simp⟩, ?_⟩, ?_, ?_, ?_, fun hd => absurd hd cfg.ne⟩
    · simp [failoverStart, ofContent]
    · simp [failoverStart, cfg.ne]
    · simp [failoverStart]
    · simp [failoverStart]
  constructor
  · constructor
    · exact ⟨_, _, hpair⟩
    · simp [failoverStart]
    · exact fun _ => rfl
    · exact List.forall_mem_nil _
    · exact List.forall_mem_nil _
    · exact List.forall_mem_nil _
    · exact List.forall_mem_nil _
    · exact List.forall_mem_nil _
    · exact List.forall_mem_nil _
    · exact List.forall_mem_nil _
    · simp [failoverStart]
  · exact Nat.le_refl _
  · exact List.forall_mem_nil _
  · rintro (⟨row, hrow, hsync⟩ | ⟨row, hrow, hd, hrole⟩ | ⟨_, hf, -⟩ | ⟨_, hf, -⟩)
    · rcases hpair.mem_iff'.mp hrow with rfl | rfl <;> cases hsync
    · rcases hpair.mem_iff'.mp hrow with rfl | rfl
      · exact absurd hd cfg.ne
      · cases hrole
    · cases hf
    · cases hf

section

variable {cfg : FailoverConfig} {st st' : FailoverState}

/-- A step of the prober alone. -/
theorem FailoverInv.of_fts (h : FailoverInv cfg st) (hprimary : st'.primary = st.primary)
    (hreceived : st'.received = st.received)
    (hstep : FtsInv cfg st'.catalog st'.entry st'.conn st'.nextConn st'.messages st'.responses
        st.primary.handlers ∧
      (Relied cfg st'.catalog st'.entry st'.conn st'.responses →
        Relied cfg st.catalog st.entry st.conn st.responses)) : FailoverInv cfg st' := by
  constructor
  · rw [hprimary]
    exact hstep.1
  · rw [hprimary, hreceived]
    exact h.lsn
  · rw [hprimary, hreceived]
    exact h.replicated
  · rw [hprimary, hreceived]
    exact fun hr => h.relied (hstep.2 hr)

theorem withWalSnd_eq_some {f : WalSnd → Option FailoverState} (h : st.withWalSnd f = some st') :
    ∃ w, st.primary.walSnd = some w ∧ f w = some st' := by
  unfold FailoverState.withWalSnd at h
  split at h
  · exact Option.bind_eq_some_iff.mp h
  · cases h

/-- The setting is on only when the prober may rely on it. -/
theorem FailoverInv.not_relied (h : FailoverInv cfg st)
    (hoff : st.primary.synchronousStandbyNames = false) :
    ¬ Relied cfg st.catalog st.entry st.conn st.responses := by
  intro hr
  rw [(h.relied hr).1] at hoff
  cases hoff

theorem FailoverInv.waitForLSN (h : FailoverInv cfg st) {lsn : Nat}
    (hok : loadedInTime st (.waitForLSN lsn) = true)
    (hs : failoverStep cfg st (.waitForLSN lsn) = some st') : FailoverInv cfg st' := by
  simp only [failoverStep] at hs
  split at hs
  · cases hs
    unfold syncRepWaitForLSN
    split
    · rename_i hflag
      have hoff : st.primary.synchronousStandbyNames = false := by
        simp only [loadedInTime, Bool.or_eq_true, Bool.not_eq_true'] at hok hflag
        rcases hok with hok | hok
        · rw [hok] at hflag
          cases hflag
        · exact hok
      exact ⟨h.fts, h.lsn, h.replicated, fun hr => absurd hr (h.not_relied hoff)⟩
    · split
      · rename_i hle
        refine ⟨h.fts, h.lsn, ?_, h.relied⟩
        exact List.forall_mem_cons.mpr ⟨Nat.le_trans hle h.lsn, h.replicated⟩
      · exact ⟨h.fts, h.lsn, h.replicated, h.relied⟩
  · cases hs

theorem FailoverInv.reload (h : FailoverInv cfg st)
    (hs : failoverStep cfg st .reload = some st') : FailoverInv cfg st' := by
  simp only [failoverStep] at hs
  split at hs
  · cases hs
    unfold syncRepUpdateSyncStandbysDefined
    split
    · exact h
    · split
      · exact ⟨h.fts, h.lsn, h.replicated, h.relied⟩
      · rename_i hoff
        exact ⟨h.fts, h.lsn, h.replicated,
          fun hr => absurd hr (h.not_relied (Bool.not_eq_true _ ▸ hoff))⟩
  · cases hs

/-- The mirror gets more of the WAL. -/
theorem FailoverInv.mirrorReceive (h : FailoverInv cfg st) {upTo : Nat}
    (hs : failoverStep cfg st (.mirrorReceive upTo) = some st') : FailoverInv cfg st' := by
  obtain ⟨w, -, hs⟩ := withWalSnd_eq_some hs
  split at hs
  · cases hs
    have hle : st.received ≤ max st.received upTo := Nat.le_max_left _ _
    refine ⟨h.fts, Nat.le_trans h.lsn hle, fun lsn hl => Nat.le_trans (h.replicated lsn hl) hle, ?_⟩
    intro hr
    obtain ⟨hon, halone⟩ := h.relied hr
    exact ⟨hon, fun lsn hl => Nat.le_trans (halone lsn hl) hle⟩
  · cases hs

theorem FailoverInv.standbyReply (h : FailoverInv cfg st) {flush : Nat}
    (hs : failoverStep cfg st (.standbyReply flush) = some st') : FailoverInv cfg st' := by
  obtain ⟨w, -, hs⟩ := withWalSnd_eq_some hs
  split at hs
  · rename_i hle
    cases hs
    unfold syncRepReleaseWaiters
    split
    · refine ⟨h.fts, hle, fun lsn hl => ?_, h.relied⟩
      rcases List.mem_append.mp hl with hl | hl
      · have hl' : lsn ≤ flush := by simpa using (List.mem_filter.mp hl).2
        exact Nat.le_trans hl' hle
      · exact h.replicated lsn hl
    · exact ⟨h.fts, h.lsn, h.replicated, h.relied⟩
  · cases hs

theorem FailoverInv.crash (h : FailoverInv cfg st)
    (hs : failoverStep cfg st .crash = some st') : FailoverInv cfg st' := by
  cases hs
  refine ⟨{ h.fts with handler_conn := ?_, handler_open := ?_, handler_read := ?_ }, h.lsn,
    h.replicated, h.relied⟩
  · exact List.forall_mem_nil _
  · exact List.forall_mem_nil _
  · exact List.forall_mem_nil _

theorem FailoverInv.receiveProbe (h : FailoverInv cfg st) {conn : Nat} {inGracePeriod : Bool}
    (hs : failoverStep cfg st (.receiveProbe conn inGracePeriod) = some st') :
    FailoverInv cfg st' := by
  simp only [failoverStep] at hs
  split at hs
  · rename_i hmsg
    simp only [Bool.and_eq_true, List.contains_iff_mem] at hmsg
    cases hs
    exact ⟨h.fts.receiveProbe hmsg.2 st.primary inGracePeriod, h.lsn, h.replicated, h.relied⟩
  · cases hs

theorem answerProbe_fst (p : Primary) (r : FtsResult) :
    (answerProbe p r).1.handlers = p.handlers ∧ (answerProbe p r).1.lsn = p.lsn ∧
      (answerProbe p r).1.ackedReplicated = p.ackedReplicated ∧
        (answerProbe p r).1.ackedAlone = p.ackedAlone := by
  unfold answerProbe setSyncStandbysDefined
  split
  · split <;> exact ⟨rfl, rfl, rfl, rfl⟩
  · exact ⟨rfl, rfl, rfl, rfl⟩

/-- The answer turns the setting on and never off. -/
theorem answerProbe_names (p : Primary) {r : FtsResult}
    (h : p.synchronousStandbyNames = true ∨
      (r.isMirrorAlive = true ∧ r.isSyncRepEnabled = false ∧ p.syncStandbysDefined = false)) :
    (answerProbe p r).1.synchronousStandbyNames = true := by
  unfold answerProbe setSyncStandbysDefined
  rcases h with hon | ⟨hup, henabled, hflag⟩
  · split
    · split
      · exact hon
      · rfl
    · exact hon
  · rw [if_pos (by rw [hup, henabled]; rfl), if_neg (by rw [hflag]; exact Bool.false_ne_true)]

theorem FailoverInv.answerProbe (h : FailoverInv cfg st) {handler : Handler}
    (hok : loadedInTime st (.answerProbe handler) = true)
    (hs : failoverStep cfg st (.answerProbe handler) = some st') : FailoverInv cfg st' := by
  simp only [failoverStep] at hs
  split at hs
  · rename_i hmem
    simp only [Bool.and_eq_true, List.contains_iff_mem] at hmem
    cases hs
    obtain ⟨hhandlers, hlsn, hreplicated, halone⟩ := answerProbe_fst st.primary handler.response
    obtain ⟨hfts, hrelied⟩ := h.fts.answerProbe hmem.2 st.primary
    refine ⟨?_, ?_, ?_, ?_⟩
    · change FtsInv cfg _ _ _ _ _ _
        ((Fts.answerProbe st.primary handler.response).1.handlers.erase _)
      rw [hhandlers]
      exact hfts
    · change (Fts.answerProbe st.primary handler.response).1.lsn ≤ _
      rw [hlsn]
      exact h.lsn
    · change ∀ lsn ∈ (Fts.answerProbe st.primary handler.response).1.ackedReplicated, _
      rw [hreplicated]
      exact h.replicated
    · intro hr
      change (Fts.answerProbe st.primary handler.response).1.synchronousStandbyNames = true ∧
        ∀ lsn ∈ (Fts.answerProbe st.primary handler.response).1.ackedAlone, _
      rw [halone]
      rcases hrelied hr with hr | hsync
      · exact ⟨answerProbe_names _ (.inl (h.relied hr).1), (h.relied hr).2⟩
      · have hup := (h.fts.handler_read handler hmem.2).2.1 hsync
        simp only [loadedInTime, hsync, Bool.not_true, Bool.false_or, Bool.and_eq_true,
          Bool.or_eq_true, Bool.not_eq_true', List.all_eq_true, decide_eq_true_eq] at hok
        refine ⟨answerProbe_names _ ?_, hok.2⟩
        rcases hok.1 with hon | hset
        · exact .inl hon
        · exact .inr ⟨hup, hset⟩
  · cases hs

theorem FailoverInv.syncrepOff (h : FailoverInv cfg st) {conn : Nat} {inGracePeriod : Bool}
    (hok : loadedInTime st (.syncrepOff conn inGracePeriod) = true)
    (hs : failoverStep cfg st (.syncrepOff conn inGracePeriod) = some st') :
    FailoverInv cfg st' := by
  simp only [failoverStep] at hs
  split at hs
  · rename_i hmsg
    simp only [Bool.and_eq_true, List.contains_iff_mem] at hmsg
    simp only [loadedInTime, beq_iff_eq] at hok
    cases hs
    have hnot := h.fts.not_relied hmsg.2 hok
    have hp : (unsetSyncStandbysDefined st.primary).handlers = st.primary.handlers ∧
        (unsetSyncStandbysDefined st.primary).lsn = st.primary.lsn ∧
          (unsetSyncStandbysDefined st.primary).ackedReplicated = st.primary.ackedReplicated := by
      unfold unsetSyncStandbysDefined
      split <;> exact ⟨rfl, rfl, rfl⟩
    have hanswer := h.fts.answerMessage hmsg.2 (r := getMirrorStatus
      (unsetSyncStandbysDefined st.primary) inGracePeriod) fun e _ hprobe hoff _ => by
        rw [hprobe] at hoff
        cases hoff
    refine ⟨?_, ?_, ?_, fun hr => absurd (hanswer.2 hr) hnot⟩
    · change FtsInv cfg _ _ _ _ _ _ (unsetSyncStandbysDefined st.primary).handlers
      rw [hp.1]
      exact hanswer.1
    · change (unsetSyncStandbysDefined st.primary).lsn ≤ _
      rw [hp.2.1]
      exact h.lsn
    · change ∀ lsn ∈ (unsetSyncStandbysDefined st.primary).ackedReplicated, _
      rw [hp.2.2]
      exact h.replicated
  · cases hs

theorem FailoverInv.mirrorMessage (h : FailoverInv cfg st) {message : Message}
    {isSyncRepEnabled retryRequested : Bool}
    (hs : failoverStep cfg st (.mirrorMessage message isSyncRepEnabled retryRequested) = some st') :
    FailoverInv cfg st' := by
  simp only [failoverStep] at hs
  split at hs
  · rename_i hmsg
    simp only [Bool.and_eq_true, List.contains_iff_mem, beq_iff_eq] at hmsg
    cases hs
    refine h.of_fts rfl rfl (h.fts.answerMessage hmsg.1 fun e he hm _ hd => ?_)
    exact h.fts.mirrorMessage hmsg.2 _ _ _ he hm hd
  · cases hs

theorem FailoverInv.ftsStart (h : FailoverInv cfg st)
    (hs : failoverStep cfg st .ftsStart = some st') : FailoverInv cfg st' := by
  simp only [failoverStep] at hs
  split at hs
  · rename_i hnone
    obtain ⟨e, he, rfl⟩ := Option.map_eq_some_iff.mp hs
    have hfts := h.fts
    have hentry := Option.isNone_iff_eq_none.mp hnone
    refine h.of_fts rfl rfl ?_
    rw [hentry] at hfts ⊢
    exact hfts.start he
  · cases hs

theorem FailoverInv.ftsSend (h : FailoverInv cfg st)
    (hs : failoverStep cfg st .ftsSend = some st') : FailoverInv cfg st' := by
  obtain ⟨e, hentry, hs⟩ := Option.bind_eq_some_iff.mp hs
  split at hs
  · rename_i message hsending hconn
    cases hs
    have hfts := h.fts
    refine h.of_fts rfl rfl ?_
    dsimp only
    rw [hentry, hconn] at hfts ⊢
    exact hfts.send hsending
  · cases hs

theorem FailoverInv.ftsReceive (h : FailoverInv cfg st) {response : Response}
    (hs : failoverStep cfg st (.ftsReceive response) = some st') : FailoverInv cfg st' := by
  obtain ⟨e, hentry, hs⟩ := Option.bind_eq_some_iff.mp hs
  split at hs
  · rename_i hcond
    simp only [Bool.and_eq_true, beq_iff_eq, List.contains_iff_mem] at hcond
    obtain ⟨⟨hsending, hconn⟩, hresponse⟩ := hcond
    obtain ⟨e', he', rfl⟩ := Option.map_eq_some_iff.mp hs
    have hfts := h.fts
    refine h.of_fts rfl rfl ?_
    dsimp only
    rw [hentry, hconn] at hfts ⊢
    refine hfts.receive hsending hresponse ?_
    cases hrecord : probeRecordResponse response.result e with
    | error err =>
      rw [hrecord] at he'
      cases he'
    | ok e₁ =>
      rw [hrecord] at he'
      cases he'
      rfl
  · cases hs

theorem FailoverInv.ftsFail (h : FailoverInv cfg st) {recoveryMakingProgress : Bool}
    (hs : failoverStep cfg st (.ftsFail recoveryMakingProgress) = some st') :
    FailoverInv cfg st' := by
  obtain ⟨e, hentry, hs⟩ := Option.bind_eq_some_iff.mp hs
  split at hs
  · rename_i hsending
    obtain ⟨e', he', rfl⟩ := Option.map_eq_some_iff.mp hs
    have hfts := h.fts
    refine h.of_fts rfl rfl ?_
    dsimp only
    rw [hentry] at hfts ⊢
    have hfail' : FtsSegmentInfo.fail
        { e with recoveryMakingProgress := recoveryMakingProgress } = .ok e' := by
      cases hfail : FtsSegmentInfo.fail
          { e with recoveryMakingProgress := recoveryMakingProgress } with
      | error err =>
        rw [hfail] at he'
        cases he'
      | ok e₁ =>
        rw [hfail] at he'
        cases he'
        rfl
    exact hfts.fail hsending hfail'
  · cases hs

theorem FailoverInv.ftsProcess (h : FailoverInv cfg st) {now : Int}
    (hs : failoverStep cfg st (.ftsProcess now) = some st') : FailoverInv cfg st' := by
  obtain ⟨e, hentry, hs⟩ := Option.bind_eq_some_iff.mp hs
  have hfts := h.fts
  rw [hentry] at hfts
  simp only [Fts.ftsProcess] at hs
  split at hs
  · rename_i hready
    split at hs
    · rename_i e' rows b hrespond
      cases hs
      have hready' : ftsResponseReady e = true := by
        have hsame := (processRetry_ready hready).1
        unfold ftsResponseReady at hready ⊢
        rwa [← hsame]
      refine h.of_fts rfl rfl ?_
      dsimp only
      rw [hready', if_pos rfl, hentry]
      exact hfts.respond hready hrespond
    · cases hs
  · rename_i hready
    cases hs
    refine h.of_fts rfl rfl ?_
    dsimp only
    rw [hentry]
    exact hfts.retry (Bool.not_eq_true _ ▸ hready)

theorem FailoverInv.ftsEnd (h : FailoverInv cfg st)
    (hs : failoverStep cfg st .ftsEnd = some st') : FailoverInv cfg st' := by
  obtain ⟨e, hentry, hs⟩ := Option.bind_eq_some_iff.mp hs
  split at hs
  · cases hs
    have hfts := h.fts
    refine h.of_fts rfl rfl ?_
    dsimp only
    rw [hentry] at hfts ⊢
    exact hfts.finish
  · cases hs

/-- **Every step that meets the condition keeps the invariant.** -/
theorem FailoverInv.step {a : FailoverAction} (h : FailoverInv cfg st)
    (hok : loadedInTime st a = true) (hs : failoverStep cfg st a = some st') :
    FailoverInv cfg st' := by
  cases a with
  | commit size =>
    simp only [failoverStep] at hs
    split at hs
    · cases hs
      exact ⟨h.fts, h.lsn, h.replicated, h.relied⟩
    · cases hs
  | waitForLSN lsn => exact h.waitForLSN hok hs
  | reload => exact h.reload hs
  | mirrorConnect =>
    simp only [failoverStep] at hs
    split at hs
    · cases hs
      exact ⟨h.fts, h.lsn, h.replicated, h.relied⟩
    · cases hs
  | startReplication =>
    obtain ⟨w, -, hs⟩ := withWalSnd_eq_some hs
    split at hs
    · cases hs
      exact ⟨h.fts, h.lsn, h.replicated, h.relied⟩
    · cases hs
  | walSend size =>
    obtain ⟨w, -, hs⟩ := withWalSnd_eq_some hs
    split at hs
    · cases hs
    · cases hs
      exact ⟨h.fts, h.lsn, h.replicated, h.relied⟩
  | caughtUp =>
    obtain ⟨w, -, hs⟩ := withWalSnd_eq_some hs
    split at hs
    · cases hs
      exact ⟨h.fts, h.lsn, h.replicated, h.relied⟩
    · cases hs
  | walSndStop =>
    obtain ⟨w, -, hs⟩ := withWalSnd_eq_some hs
    split at hs
    · cases hs
    · cases hs
      exact ⟨h.fts, h.lsn, h.replicated, h.relied⟩
  | mirrorReceive upTo => exact h.mirrorReceive hs
  | standbyReply flush => exact h.standbyReply hs
  | linkFail =>
    cases hs
    exact ⟨h.fts, h.lsn, h.replicated, h.relied⟩
  | crash => exact h.crash hs
  | restart =>
    simp only [failoverStep] at hs
    split at hs
    · cases hs
    · cases hs
      exact ⟨h.fts, Nat.zero_le _, h.replicated, h.relied⟩
  | receiveProbe conn inGracePeriod => exact h.receiveProbe hs
  | answerProbe handler => exact h.answerProbe hok hs
  | syncrepOff conn inGracePeriod => exact h.syncrepOff hok hs
  | mirrorMessage message isSyncRepEnabled retryRequested => exact h.mirrorMessage hs
  | ftsStart => exact h.ftsStart hs
  | ftsSend => exact h.ftsSend hs
  | ftsReceive response => exact h.ftsReceive hs
  | ftsFail recoveryMakingProgress => exact h.ftsFail hs
  | ftsProcess now => exact h.ftsProcess hs
  | ftsEnd => exact h.ftsEnd hs

end

/-! ## Failover -/

/-- **No acknowledged commit is lost by a failover** in a run in which the setting is loaded in
time: in every state in which the prober has made the mirror the primary, the mirror has the WAL of
every commit the primary ever acknowledged. -/
theorem failover_keeps_commits (cfg : FailoverConfig) (mirrorStatus : Status)
    {as : List FailoverAction} {st : FailoverState}
    (hok : Along (failoverStep cfg) (loadedInTime · · = true) (failoverStart cfg mirrorStatus) as)
    (hrun : run (failoverStep cfg) (failoverStart cfg mirrorStatus) as = some st)
    (hpromoted : Promoted cfg st) : CommitsReceived st := by
  have hinv := run_invariant_along (fun _ _ _ h hok hs => FailoverInv.step h hok hs) hok
    (failoverStart_inv cfg mirrorStatus) hrun
  exact ⟨(hinv.relied (.inr (.inl hpromoted))).2, hinv.replicated⟩

/-- A pair, and a prober that does not retry. -/
def onePair : FailoverConfig := ⟨⟨0, 20⟩, 2, 3, 0, by decide⟩

/-- The answer to a probe when the mirror is streaming and the flag is not set. -/
def streamingHandler (conn : Nat) : Handler :=
  ⟨conn, ⟨true, true, true, false, false, false⟩⟩

/-- The mirror connects and is found to be in sync. -/
def becomeInSync : List FailoverAction :=
  [.mirrorConnect, .startReplication, .caughtUp, .ftsStart, .ftsSend, .receiveProbe 0 false,
    .answerProbe (streamingHandler 0), .ftsReceive ⟨0, ⟨true, true, true, true, false, false⟩⟩,
    .ftsProcess 0, .ftsEnd]

/-- The primary is gone, and the mirror takes over. -/
def failOver : List FailoverAction := [.crash, .ftsStart, .ftsSend, .ftsFail false, .ftsProcess 0]

/-- The setting is loaded, and then a commit waits for the mirror. -/
def waitedCommit : List FailoverAction :=
  becomeInSync ++ [.reload, .commit 0, .waitForLSN 1, .walSend 1, .mirrorReceive 1,
    .standbyReply 1] ++ failOver

theorem failover_keeps_commits_waited :
    ∃ st, run (failoverStep onePair) (failoverStart onePair .up) waitedCommit = some st ∧
      Along (failoverStep onePair) (loadedInTime · · = true) (failoverStart onePair .up)
        waitedCommit ∧
      st.primary.ackedReplicated = [1] ∧ Promoted onePair st ∧ CommitsReceived st := by
  have hok : Along (failoverStep onePair) (loadedInTime · · = true) (failoverStart onePair .up)
      waitedCommit := by decide +kernel
  obtain ⟨st, hst⟩ := Option.isSome_iff_exists.mp
    (by decide +kernel : (run (failoverStep onePair) (failoverStart onePair .up)
      waitedCommit).isSome = true)
  have hshape : (run (failoverStep onePair) (failoverStart onePair .up) waitedCommit).map
      (fun st => (st.primary.ackedReplicated, st.catalog)) =
        some ([1], [⟨2, 0, .mirror, .down, .notInSync⟩, ⟨3, 0, .primary, .up, .notInSync⟩]) := by
    decide +kernel
  rw [hst, Option.map_some, Option.some.injEq, Prod.mk.injEq] at hshape
  have hpromoted : Promoted onePair st := by
    unfold Promoted
    rw [hshape.2]
    exact ⟨_, List.mem_cons_of_mem _ List.mem_cons_self, rfl, rfl⟩
  exact ⟨st, hst, hok, hshape.1, hpromoted, failover_keeps_commits onePair .up hok hst hpromoted⟩

/-- A commit comes between the answer to the probe and the reload. -/
def hastyCommit : List FailoverAction := becomeInSync ++ [.commit 0, .waitForLSN 1] ++ failOver

/-- A commit is acknowledged at once, because the setting is not loaded yet, after the prober was
told that the mirror is in sync. The primary crashes, and the mirror without the commit becomes the
primary. -/
theorem acknowledged_commit_lost :
    ¬ ∀ (as : List FailoverAction) (st : FailoverState),
      run (failoverStep onePair) (failoverStart onePair .up) as = some st →
        Promoted onePair st → CommitsReceived st := by
  intro hall
  obtain ⟨st, hst⟩ := Option.isSome_iff_exists.mp
    (by decide +kernel : (run (failoverStep onePair) (failoverStart onePair .up)
      hastyCommit).isSome = true)
  have hshape : (run (failoverStep onePair) (failoverStart onePair .up) hastyCommit).map
      (fun st => (st.primary.ackedAlone, st.received, st.catalog)) =
        some ([1], 0, [⟨2, 0, .mirror, .down, .notInSync⟩, ⟨3, 0, .primary, .up, .notInSync⟩]) := by
    decide +kernel
  rw [hst, Option.map_some, Option.some.injEq, Prod.mk.injEq, Prod.mk.injEq] at hshape
  obtain ⟨hacked, hreceived, hcatalog⟩ := hshape
  have hpromoted : Promoted onePair st := by
    unfold Promoted
    rw [hcatalog]
    exact ⟨_, List.mem_cons_of_mem _ List.mem_cons_self, rfl, rfl⟩
  have hle := (hall hastyCommit st hst hpromoted).1 1 (by rw [hacked]; exact List.mem_cons_self)
  rw [hreceived] at hle
  exact absurd hle (by decide)

end Hdb.Fts
