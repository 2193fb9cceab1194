import Hdb.Fts.ProbePass

/-!
# A probe cycle keeps the configuration sound

A cycle takes place on a configuration in which each content has one primary, which is up, and one
mirror. Whatever happens on the connections, each segment goes through its messages on its own, and
only rows of its own content are updated. The configuration read at the start is still the one in
the catalog when it is used, because a segment whose rows were updated is not probed again.

Main results: `probe_cycle`, and `swap_after_answer`, a swap of roles after a probe that was
answered.
-/

namespace Hdb.Fts

section

variable {cfg : FtsSettings} {rows₀ rows : Catalog} {e : FtsSegmentInfo}

/-! ## Processing the responses -/

theorem OwnPair.frame {rows' : Catalog} {p m : SegmentConfig} (h : OwnPair rows p m)
    (heq : ofContent rows' p.segindex = ofContent rows p.segindex) : OwnPair rows' p m :=
  { h with rows := heq ▸ h.rows }

theorem EntryInv.frame {rows' : Catalog} (h : EntryInv cfg rows₀ rows e)
    (heq : ofContent rows' e.primary.segindex = ofContent rows e.primary.segindex) :
    EntryInv cfg rows₀ rows' e := by
  obtain ⟨p₀, m₀, p, m, hrows⟩ := h.rows
  rw [← hrows.content] at heq
  exact ⟨h.own, p₀, m₀, p, m, { hrows with now := hrows.now.frame heq }⟩

theorem Responding.frame {rows' : Catalog} (h : Responding cfg rows₀ rows e)
    (heq : ofContent rows' e.primary.segindex = ofContent rows e.primary.segindex) :
    Responding cfg rows₀ rows' e :=
  ⟨h.toEntryInv.frame heq, h.counted, h.given_up⟩

/-- A segment after its response was processed. -/
def FtsSegmentInfo.reset (e : FtsSegmentInfo) : FtsSegmentInfo := { e.closed with retryCount := 0 }

/-- The invariant between two passes. -/
structure Between (cfg : FtsSettings) (rows₀ rows : Catalog) (e : FtsSegmentInfo) : Prop extends
    EntryInv cfg rows₀ rows e where
  not_ready : ftsResponseReady e = false
  counted : Counted e

/-- A segment that has a new message to send, or none. -/
theorem between_reset {p₀ m₀ p m : SegmentConfig} (hsent : ∀ s ∈ e.sent, s.Justified)
    (hrows : RowsOf cfg rows₀ rows e p₀ m₀ p m) (hready : ftsResponseReady e = false)
    (hmessage : e.state.message ≠ some .probe) : Between cfg rows₀ rows e.reset := by
  refine ⟨⟨⟨Nat.zero_le _, fun _ => rfl, ?_, fun _ => rfl, hsent⟩, p₀, m₀, p, m, ?_⟩, hready, ?_⟩
  · intro heq
    change e.state = _ at heq
    rw [heq] at hmessage
    exact absurd rfl hmessage
  · exact ⟨hrows.start, hrows.now, hrows.content₀, hrows.content, hrows.dbids, hrows.swaps,
      hrows.swapped, hrows.probing, hrows.target, hrows.mirror_down⟩
  · exact fun hm => absurd hm hmessage

/-- The cycle is over for the segment. -/
theorem EntryInv.processed (h : EntryInv cfg rows₀ rows e) :
    Between cfg rows₀ rows { e with state := .responseProcessed }.reset := by
  obtain ⟨p₀, m₀, p, m, hrows⟩ := h.rows
  have hrows' : RowsOf cfg rows₀ rows { e with state := .responseProcessed } p₀ m₀ p m := by
    refine { hrows with probing := ?_, target := ?_, mirror_down := ?_ }
    · intro hm
      cases hm
    · exact fun hm => absurd rfl hm
    · exact fun hm => absurd rfl hm
  exact between_reset h.own.sent hrows' rfl (by simp [FtsMessageState.message])

/-- What becomes of the catalog: nothing changes, or the rows are as the primary said, or the roles
are swapped. -/
def CatalogChange (e : FtsSegmentInfo) (rows rows' : Catalog) : Prop :=
  rows' = rows ∨
    (e.state = .probeSuccess ∧
      OwnPair rows' (e.primary.set .primary true e.result.isInSync)
        (e.mirror.set .mirror e.result.isMirrorAlive e.result.isInSync)) ∨
    (e.state = .probeFailed ∧ e.mirror.mode = .inSync ∧
      OwnPair rows' (e.mirror.set .primary true false) (e.primary.set .mirror false false))

/-- What processing a response must give. -/
structure Responded (cfg : FtsSettings) (rows₀ rows : Catalog) (e : FtsSegmentInfo)
    (r : FtsSegmentInfo × Catalog × Bool) : Prop where
  touches : Touches [e.primary.segindex] rows r.2.1
  between : Between cfg rows₀ r.2.1 r.1.reset
  content : r.1.primary.segindex = e.primary.segindex
  change : CatalogChange e rows r.2.1

theorem EntryInv.responded_processed (h : EntryInv cfg rows₀ rows e) (b : Bool) :
    Responded cfg rows₀ rows e ({ e with state := .responseProcessed }, rows, b) :=
  ⟨Touches.refl _ _, h.processed, rfl, .inl rfl⟩

theorem ownPair_set {rows' : Catalog} {p m : SegmentConfig} {mirrorAlive sync : Bool}
    (hsync : sync = true → mirrorAlive = true)
    (hperm : (ofContent rows' p.segindex).Perm
      [p.set .primary true sync, m.set .mirror mirrorAlive sync]) :
    OwnPair rows' (p.set .primary true sync) (m.set .mirror mirrorAlive sync) where
  primary := rfl
  mirror := rfl
  up := rfl
  mode := rfl
  both_up := by
    cases sync with
    | true =>
      rw [hsync rfl]
      exact fun _ => rfl
    | false => exact fun hm => by cases hm
  rows := hperm

/-- The catalog is updated from the answer of a primary that is up. -/
theorem responded_update (hnd : (rows.map (·.dbid)).Nodup) (hsent : ∀ s ∈ e.sent, s.Justified)
    (hstart : OwnPair rows₀ e.primary e.mirror) (hown : OwnPair rows e.primary e.mirror)
    (hswaps : e.swaps = []) (hs : e.state = .probeSuccess)
    (hsync : e.result.isInSync = true → e.result.isMirrorAlive = true) {state : FtsMessageState}
    (hready : ftsResponseReady { e with state := state } = false)
    (hmessage : state.message ≠ some .probe)
    (hdown : state.message ≠ none →
      e.result.isMirrorAlive = false ∧ e.result.isInSync = false) :
    Returns (updateConfiguration e.primary e.mirror .primary .mirror e.result.isInSync true
        e.result.isMirrorAlive rows >>= fun r => pure ({ e with state := state }, r.1, r.2))
      (Responded cfg rows₀ rows e) := by
  refine returns_bind (updateConfiguration_returns hnd hown (.inl ⟨rfl, rfl⟩)) fun r hr =>
    returns_pure ?_
  obtain ⟨htouch, hperm⟩ := hr
  have hrows : RowsOf cfg rows₀ r.1 { e with state := state } e.primary e.mirror
      (e.primary.set .primary true e.result.isInSync)
      (e.mirror.set .mirror e.result.isMirrorAlive e.result.isInSync) := by
    constructor
    · exact hstart
    · exact ownPair_set hsync hperm
    · rfl
    · rfl
    · exact (if_pos hswaps).symm
    · simp [hswaps]
    · simp [hswaps]
    · exact fun hm => absurd hm hmessage
    · exact fun _ => rfl
    · intro hm _
      obtain ⟨hdead, hnot⟩ := hdown hm
      rw [hdead, hnot]
      exact ⟨rfl, rfl⟩
  exact ⟨htouch, between_reset hsent hrows hready hmessage, rfl, .inr (.inl ⟨hs, hrows.now⟩)⟩

/-- The answer to a probe. -/
theorem Responding.respond_success (h : Responding cfg rows₀ rows e)
    (hnd : (rows.map (·.dbid)).Nodup) (hs : e.state = .probeSuccess) :
    Returns (respond e rows) (Responded cfg rows₀ rows e) := by
  obtain ⟨halive, hasserted⟩ := h.own.answered hs
  obtain ⟨p₀, m₀, p, m, hrows⟩ := h.rows
  obtain ⟨hep, hem, hp₀, hm₀, hswaps⟩ := hrows.probing (by rw [hs]; rfl)
  have hown : OwnPair rows e.primary e.mirror := by
    rw [hep, hem]
    exact hrows.now
  have hstart : OwnPair rows₀ e.primary e.mirror := by
    rw [hep, hem, ← hp₀, ← hm₀]
    exact hrows.start
  unfold Fts.respond
  simp only [hs, halive, if_true]
  split
  · rename_i hdown
    obtain ⟨-, hmirror⟩ := Bool.and_eq_true_iff.mp hdown
    rw [Bool.not_eq_true'] at hmirror
    split
    · -- the mirror is marked down before the primary is told to go on without it
      refine responded_update hnd h.own.sent hstart hown hswaps hs hasserted.in_sync rfl
        (by simp [FtsMessageState.message]) fun _ => ⟨hmirror, ?_⟩
      cases hsync : e.result.isInSync with
      | true => exact absurd (hasserted.in_sync hsync) (by simp [hmirror])
      | false => rfl
    · exact returns_pure (h.toEntryInv.responded_processed false)
  · rename_i hnot
    split
    · -- an earlier cycle swapped the roles, and its message was lost
      rename_i hrole
      obtain ⟨-, hstatus, -, hmode, -⟩ :=
        hasserted.role_mirror hrole (Bool.eq_false_iff.mpr hnot)
      have hrows' : RowsOf cfg rows₀ rows { e with state := .promoteSegment } e.primary e.mirror
          e.primary e.mirror := by
        constructor
        · exact hstart
        · exact hown
        · rfl
        · rfl
        · exact (if_pos hswaps).symm
        · simp [hswaps]
        · simp [hswaps]
        · intro hm
          cases hm
        · exact fun _ => rfl
        · exact fun _ _ => ⟨hstatus, hmode⟩
      exact returns_pure ⟨Touches.refl _ _,
        between_reset h.own.sent hrows' rfl (by simp [FtsMessageState.message]), rfl, .inl rfl⟩
    · exact responded_update hnd h.own.sent hstart hown hswaps hs hasserted.in_sync rfl
        (by simp [FtsMessageState.message]) fun hm => absurd rfl hm

/-- A probe that failed for good: the mirror takes over if it is in sync. -/
theorem Responding.respond_failed (h : Responding cfg rows₀ rows e)
    (hnd : (rows.map (·.dbid)).Nodup) (hs : e.state = .probeFailed) :
    Returns (respond e rows) (Responded cfg rows₀ rows e) := by
  have halive : e.result.isPrimaryAlive = false := h.own.unanswered (by rw [hs]; rfl)
  obtain ⟨p₀, m₀, p, m, hrows⟩ := h.rows
  obtain ⟨hep, hem, hp₀, hm₀, hswaps⟩ := hrows.probing (by rw [hs]; rfl)
  obtain ⟨hlength, hretried, hlast⟩ := h.given_up hs
  have hown : OwnPair rows e.primary e.mirror := by
    rw [hep, hem]
    exact hrows.now
  have hstart : OwnPair rows₀ e.primary e.mirror := by
    rw [hep, hem, ← hp₀, ← hm₀]
    exact hrows.start
  unfold Fts.respond
  simp only [hs, halive]
  split
  · exact returns_pure (h.toEntryInv.responded_processed false)
  · rename_i hprogress
    rw [Bool.not_eq_true] at hprogress
    split
    · rename_i hsync
      have hmode : e.mirror.mode = .inSync := by simpa [SegmentConfig.isInSync] using hsync
      have hup : e.mirror.isAlive = true := by
        rw [SegmentConfig.isAlive, hown.both_up (hown.mode.trans hmode)]
        rfl
      have hne : false ≠ e.primary.isInSync := by
        rw [SegmentConfig.isInSync, hown.mode, hmode]
        simp
      rw [hup]
      refine returns_bind (updateConfiguration_returns hnd hown (.inr hne)) fun r hr =>
        returns_pure ?_
      obtain ⟨htouch, hperm⟩ := hr
      have hcontent := hown.mem_mirror.2
      have hrows' : RowsOf cfg rows₀ r.1
          { e with
            state := .promoteSegment
            primary := e.mirror
            mirror := e.primary
            swaps := e.attempts :: e.swaps }
          e.primary e.mirror (e.mirror.set .primary true false)
          (e.primary.set .mirror false false) := by
        constructor
        · exact hstart
        · refine ownPair_set (fun hf => by cases hf) ?_
          rw [hcontent]
          exact hperm.trans (List.Perm.swap _ _ _)
        · exact hcontent.symm
        · rfl
        · rfl
        · simp [hswaps]
        · intro attempts hmem
          rw [hswaps] at hmem
          obtain rfl := List.mem_singleton.mp hmem
          exact ⟨hmode, hlength, hretried, hprogress ▸ hlast⟩
        · intro hm
          cases hm
        · exact fun _ => rfl
        · exact fun _ _ => ⟨rfl, rfl⟩
      exact ⟨htouch, between_reset h.own.sent hrows' rfl (by simp [FtsMessageState.message]),
        hcontent, .inr (.inr ⟨hs, hmode, hrows'.now⟩)⟩
    · exact returns_pure (h.toEntryInv.responded_processed false)

/-- **One response** touches only rows of its own content, and keeps the invariant. -/
theorem Responding.respond (h : Responding cfg rows₀ rows e) (hnd : (rows.map (·.dbid)).Nodup)
    (hready : ftsResponseReady e = true) :
    Returns (respond e rows) (Responded cfg rows₀ rows e) := by
  cases hs : e.state with
  | probeSuccess => exact h.respond_success hnd hs
  | probeFailed => exact h.respond_failed hnd hs
  | syncrepOffFailed | promoteFailed | promoteSuccess | syncrepOffSuccess =>
    simp only [Fts.respond, hs]
    exact returns_pure (h.toEntryInv.responded_processed false)
  | probeSegment | syncrepOffSegment | promoteSegment | probeRetryWait | syncrepOffRetryWait
  | promoteRetryWait | responseProcessed =>
    simp [ftsResponseReady, hs, FtsMessageState.isSuccess, FtsMessageState.isFailed] at hready

/-! ## The loop -/

def contents (es : List FtsSegmentInfo) : List Int := es.map (·.primary.segindex)

/-- What processing the responses of several segments gives. If all were looked at, the next pass
can begin. -/
structure Processed (cfg : FtsSettings) (rows₀ rows : Catalog) (es : List FtsSegmentInfo)
    (all : Prop) (r : List FtsSegmentInfo × Catalog × Bool) : Prop where
  touches : Touches (contents es) rows r.2.1
  same : contents r.1 = contents es
  inv : ∀ e ∈ r.1, EntryInv cfg rows₀ r.2.1 e
  between : all → ∀ e ∈ r.1, Between cfg rows₀ r.2.1 e

theorem processResponse_returns {n : Nat} {es : List FtsSegmentInfo}
    (hnd : (rows.map (·.dbid)).Nodup) (hcontents : (contents es).Nodup)
    (h : ∀ e ∈ es, Responding cfg rows₀ rows e) :
    Returns (processResponse n es rows) (Processed cfg rows₀ rows es (es.length ≤ n)) := by
  induction n, es, rows using processResponse.induct with
  | case1 es rows =>
    unfold processResponse
    refine returns_pure ⟨Touches.refl _ _, rfl, fun e he => (h e he).toEntryInv, ?_⟩
    intro hall e he
    rw [List.length_eq_zero_iff.mp (Nat.le_zero.mp hall)] at he
    cases he
  | case2 n rows =>
    exact returns_pure ⟨Touches.refl _ _, rfl, List.forall_mem_nil _,
      fun _ => List.forall_mem_nil _⟩
  | case3 n e es rows hready ih =>
    obtain ⟨hnotin, hcontents'⟩ := List.nodup_cons.mp hcontents
    unfold processResponse
    rw [if_pos hready]
    refine returns_bind ((h e List.mem_cons_self).respond hnd hready) fun r hr => ?_
    obtain ⟨htouch, hbetween, hcontent, -⟩ := hr
    -- the segments that are left have other contents
    have hnd' : (r.2.1.map (·.dbid)).Nodup := by rwa [htouch.dbids]
    have htail : ∀ e' ∈ es, Responding cfg rows₀ r.2.1 e' := by
      intro e' he'
      refine (h e' (List.mem_cons_of_mem e he')).frame (htouch.others _ fun hmem => hnotin ?_)
      exact List.mem_map.mpr ⟨e', he', List.mem_singleton.mp hmem⟩
    refine returns_bind (ih r.2.1 hnd' hcontents' htail) fun r' hr' => returns_pure ?_
    have hframe : ofContent r'.2.1 r.1.reset.primary.segindex =
        ofContent r.2.1 r.1.reset.primary.segindex := by
      refine hr'.touches.others _ ?_
      change r.1.primary.segindex ∉ contents es
      rw [hcontent]
      exact hnotin
    have hhead : Between cfg rows₀ r'.2.1 r.1.reset :=
      ⟨hbetween.toEntryInv.frame hframe, hbetween.not_ready, hbetween.counted⟩
    constructor
    · refine (htouch.mono ?_).trans (hr'.touches.mono ?_)
      · exact List.cons_subset_cons _ (List.nil_subset _)
      · exact List.subset_cons_self _ _
    · change r.1.primary.segindex :: contents r'.1 = e.primary.segindex :: contents es
      rw [hcontent, hr'.same]
    · intro e' he'
      rcases List.mem_cons.mp he' with rfl | he'
      · exact hhead.toEntryInv
      · exact hr'.inv e' he'
    · intro hall e' he'
      rcases List.mem_cons.mp he' with rfl | he'
      · exact hhead
      · exact hr'.between (Nat.le_of_succ_le_succ hall) e' he'
  | case4 n e es rows hready ih =>
    obtain ⟨hnotin, hcontents'⟩ := List.nodup_cons.mp hcontents
    unfold processResponse
    rw [if_neg hready]
    refine returns_bind (ih hnd hcontents' fun e' he' => h e' (List.mem_cons_of_mem e he'))
      fun r' hr' => returns_pure ?_
    have he := (h e List.mem_cons_self).frame (hr'.touches.others _ hnotin)
    rw [Bool.not_eq_true] at hready
    constructor
    · exact hr'.touches.mono (List.subset_cons_self _ _)
    · change e.primary.segindex :: contents r'.1 = e.primary.segindex :: contents es
      rw [hr'.same]
    · intro e' he'
      rcases List.mem_cons.mp he' with rfl | he'
      · exact he.toEntryInv
      · exact hr'.inv e' he'
    · intro hall e' he'
      rcases List.mem_cons.mp he' with rfl | he'
      · exact ⟨he.toEntryInv, hready, he.counted hready⟩
      · exact hr'.between (Nat.le_of_succ_le_succ hall) e' he'

/-- **The steps of a pass** for one segment, up to the retry. -/
theorem Between.passEntry (h : Between cfg rows₀ rows e) {pass : Pass}
    (hpass : pass.Asserted rows₀) :
    Returns (passEntry cfg rows pass e) fun e' =>
      Responding cfg rows₀ rows e' ∧ e'.primary.segindex = e.primary.segindex := by
  have hwaiting : Waiting cfg rows₀ rows e.primary e :=
    ⟨⟨h.toEntryInv, rfl, h.counted⟩, (Bool.or_eq_false_iff.mp h.not_ready).1⟩
  unfold Fts.passEntry
  refine returns_bind (hwaiting.ftsConnect _) fun e₁ h₁ => ?_
  refine returns_bind (h₁.ftsPoll _ _) fun e₂ h₂ => ?_
  refine returns_bind (h₂.ftsSend _) fun e₃ h₃ => ?_
  refine returns_bind (h₃.ftsReceive hpass) fun e₄ h₄ => returns_pure ?_
  refine ⟨h₄.processRetry _, ?_⟩
  rw [(processRetry_same _ e₄).primary, h₄.primary_eq]

end

/-- The invariant of the cycle. -/
structure CycleInv (cfg : FtsSettings) (rows₀ : Catalog) (ctx : FtsContext) : Prop where
  dbids : ctx.catalog.map (·.dbid) = rows₀.map (·.dbid)
  segindexes : ctx.catalog.map (·.segindex) = rows₀.map (·.segindex)
  contents_nodup : (contents ctx.perSegInfos).Nodup
  covered : ∀ row ∈ rows₀, row.segindex ∈ contents ctx.perSegInfos
  inv : ∀ e ∈ ctx.perSegInfos, EntryInv cfg rows₀ ctx.catalog e

theorem CycleInv.loopPass {cfg : FtsSettings} {rows₀ : Catalog} {ctx : FtsContext}
    (h : CycleInv cfg rows₀ ctx) (hnd : (rows₀.map (·.dbid)).Nodup)
    (hbetween : ∀ e ∈ ctx.perSegInfos, Between cfg rows₀ ctx.catalog e) {pass : Pass}
    (hpass : pass.Asserted rows₀) :
    Returns (loopPass cfg pass ctx) fun ctx' =>
      CycleInv cfg rows₀ ctx' ∧
        (pass.stopAt = none → ∀ e ∈ ctx'.perSegInfos, Between cfg rows₀ ctx'.catalog e) := by
  unfold Fts.loopPass
  refine returns_bind (returns_mapM fun e he => (hbetween e he).passEntry hpass) fun es hes => ?_
  obtain ⟨hresponding, hcontents⟩ := hes
  change contents es = contents ctx.perSegInfos at hcontents
  have hnd' : (ctx.catalog.map (·.dbid)).Nodup := by rwa [h.dbids]
  have hes_nodup : (contents es).Nodup := by
    rw [hcontents]
    exact h.contents_nodup
  refine returns_bind (processResponse_returns hnd' hes_nodup hresponding) fun r hr =>
    returns_pure ⟨?_, ?_⟩
  · constructor
    · exact hr.touches.dbids.trans h.dbids
    · exact hr.touches.segindexes.trans h.segindexes
    · change (contents r.1).Nodup
      rwa [hr.same]
    · intro row hrow
      change row.segindex ∈ contents r.1
      rw [hr.same, hcontents]
      exact h.covered row hrow
    · exact hr.inv
  · intro hstop
    refine hr.between ?_
    rw [hstop]
    exact Nat.le_refl _

/-- **Every pass of the loop returns and keeps the invariant.** -/
theorem messageLoop_returns {cfg : FtsSettings} {rows₀ : Catalog} (hnd : (rows₀.map (·.dbid)).Nodup)
    {passes : List Pass} (hpasses : ∀ pass ∈ passes, pass.Asserted rows₀) {ctx : FtsContext}
    (h : CycleInv cfg rows₀ ctx)
    (hbetween : ∀ e ∈ ctx.perSegInfos, Between cfg rows₀ ctx.catalog e) :
    Returns (messageLoop cfg passes ctx) (CycleInv cfg rows₀) := by
  induction passes generalizing ctx with
  | nil => exact returns_pure h
  | cons pass passes ih =>
    unfold messageLoop
    split
    · exact returns_pure h
    · have hpass := hpasses pass List.mem_cons_self
      refine returns_bind (h.loopPass hnd hbetween hpass) fun ctx' hctx' => ?_
      split
      · exact returns_pure hctx'.1
      · rename_i hstop
        rw [Bool.not_eq_true, Option.isSome_eq_false_iff, Option.isNone_iff_eq_none] at hstop
        exact ih (fun pass' h' => hpasses pass' (List.mem_cons_of_mem pass h')) hctx'.1
          (hctx'.2 hstop)

/-! ## The start of the cycle -/

theorem OwnPair.eq_primary {rows : Catalog} {p m row : SegmentConfig} (h : OwnPair rows p m)
    (hrow : row ∈ rows) (hcontent : row.segindex = p.segindex) (hrole : row.role = .primary) :
    row = p := by
  rcases h.mem_iff.mp ⟨hrow, hcontent⟩ with rfl | rfl
  · rfl
  · rw [h.mirror] at hrole
    cases hrole

/-- The segments of the cycle: one for each pair. -/
theorem mem_init {rows : Catalog} (hrows : Sound rows) {e : FtsSegmentInfo}
    (he : e ∈ (ftsWalRepInitProbeContext rows).perSegInfos) :
    ∃ p m, OwnPair rows p m ∧ e = { primary := p, mirror := m } := by
  obtain ⟨row, hrow, he⟩ := List.mem_filterMap.mp he
  split at he
  · rename_i hprimary
    obtain ⟨peer, hpeer, rfl⟩ := Option.map_eq_some_iff.mp he
    have hrole : row.role = .primary := by simpa [SegmentConfig.isActivePrimary] using hprimary
    obtain ⟨p, m, hpair, hcontent⟩ := hrows.pair row hrow
    obtain rfl := hpair.eq_primary hrow hcontent.symm hrole
    have hfound := List.find?_some hpeer
    simp only [Bool.and_eq_true, beq_iff_eq, bne_iff_ne] at hfound
    have hmem := List.mem_of_find?_eq_some hpeer
    rcases hpair.mem_iff.mp ⟨hmem, hfound.1⟩ with rfl | rfl
    · exact absurd rfl hfound.2
    · exact ⟨row, peer, hpair, rfl⟩
  · cases he

theorem init_covered {rows : Catalog} (hrows : Sound rows) {row : SegmentConfig}
    (hrow : row ∈ rows) :
    row.segindex ∈ contents (ftsWalRepInitProbeContext rows).perSegInfos := by
  obtain ⟨p, m, hpair, hcontent⟩ := hrows.pair row hrow
  have hpeer : (ftsGetPeerSegment rows p.segindex p.dbid).isSome = true := by
    refine List.find?_isSome.mpr ⟨m, hpair.mem_mirror.1, ?_⟩
    simp [hpair.mem_mirror.2, (hpair.dbid_ne hrows.dbids).symm]
  obtain ⟨peer, hpeer⟩ := Option.isSome_iff_exists.mp hpeer
  refine List.mem_map.mpr ⟨{ primary := p, mirror := peer }, ?_, hcontent⟩
  refine List.mem_filterMap.mpr ⟨p, hpair.mem_primary, ?_⟩
  rw [if_pos (by simp [SegmentConfig.isActivePrimary, hpair.primary]), hpeer]
  rfl

theorem init_primary {rows : Catalog} {row : SegmentConfig} {e : FtsSegmentInfo}
    (he : e ∈ (if row.isActivePrimary then
      (ftsGetPeerSegment rows row.segindex row.dbid).map fun mirror =>
        ({ primary := row, mirror := mirror } : FtsSegmentInfo)
      else none)) : row.role = .primary ∧ e.primary.segindex = row.segindex := by
  split at he
  · rename_i hprimary
    obtain ⟨peer, -, rfl⟩ := Option.map_eq_some_iff.mp he
    exact ⟨by simpa [SegmentConfig.isActivePrimary] using hprimary, rfl⟩
  · cases he

theorem init_contents_nodup {rows : Catalog} (hrows : Sound rows) :
    (contents (ftsWalRepInitProbeContext rows).perSegInfos).Nodup := by
  unfold contents ftsWalRepInitProbeContext
  rw [List.Nodup, List.pairwise_map, List.pairwise_filterMap]
  refine (List.pairwise_map.mp hrows.dbids).imp_of_mem
    fun {row row'} hrow hrow' hne e he e' he' => ?_
  obtain ⟨hrole, hcontent⟩ := init_primary he
  obtain ⟨hrole', hcontent'⟩ := init_primary he'
  intro heq
  obtain ⟨p, m, hpair, hp⟩ := hrows.pair row hrow
  have hrow_eq := hpair.eq_primary hrow hp.symm hrole
  have hrow_eq' := hpair.eq_primary hrow' (by rw [hp, ← hcontent, heq, hcontent']) hrole'
  exact hne (by rw [hrow_eq, hrow_eq'])

theorem init_between {cfg : FtsSettings} {rows : Catalog} (hrows : Sound rows) :
    ∀ e ∈ (ftsWalRepInitProbeContext rows).perSegInfos, Between cfg rows rows e := by
  intro e he
  obtain ⟨p, m, hpair, rfl⟩ := mem_init hrows he
  refine ⟨⟨⟨Nat.zero_le _, fun _ => rfl, ?_, fun _ => rfl, List.forall_mem_nil _⟩, p, m, p, m, ?_⟩,
    rfl, fun _ => ⟨rfl, List.forall_mem_nil _⟩⟩
  · intro hs
    cases hs
  · exact ⟨hpair, hpair, rfl, rfl, rfl, Nat.zero_le _, List.forall_mem_nil _,
      fun _ => ⟨rfl, rfl, rfl, rfl, rfl⟩, fun _ => rfl, fun _ hne => absurd rfl hne⟩

/-! ## The cycle -/

/-- The roles of a content: as at the start, or swapped once, and then with good reason. -/
def RolesKept (cfg : FtsSettings) (rows₀ rows : Catalog) (e : FtsSegmentInfo) : Prop :=
  ∃ p₀ m₀ p m, OwnPair rows₀ p₀ m₀ ∧ OwnPair rows p m ∧ p₀.segindex = p.segindex ∧
    p.segindex = e.primary.segindex ∧
      ((e.swaps = [] ∧ p.dbid = p₀.dbid ∧ m.dbid = m₀.dbid) ∨
        ∃ attempts, e.swaps = [attempts] ∧ SwapJustified cfg m₀ attempts ∧
          p.dbid = m₀.dbid ∧ m.dbid = p₀.dbid)

theorem EntryInv.rolesKept {cfg : FtsSettings} {rows₀ rows : Catalog} {e : FtsSegmentInfo}
    (h : EntryInv cfg rows₀ rows e) : RolesKept cfg rows₀ rows e := by
  obtain ⟨p₀, m₀, p, m, hrows⟩ := h.rows
  refine ⟨p₀, m₀, p, m, hrows.start, hrows.now, hrows.content₀.trans hrows.content.symm,
    hrows.content, ?_⟩
  have hdbids := hrows.dbids
  have hswaps := hrows.swaps
  cases hs : e.swaps with
  | nil =>
    rw [hs, if_pos rfl, Prod.mk.injEq] at hdbids
    exact .inl ⟨rfl, hdbids⟩
  | cons attempts rest =>
    rw [hs, if_neg (List.cons_ne_nil _ _), Prod.mk.injEq] at hdbids
    rw [hs, List.length_cons] at hswaps
    obtain rfl : rest = [] := List.length_eq_zero_iff.mp (by omega)
    refine .inr ⟨attempts, rfl, hrows.swapped attempts ?_, hdbids⟩
    rw [hs]
    exact List.mem_cons_self

theorem CycleInv.sound {cfg : FtsSettings} {rows₀ : Catalog} {ctx : FtsContext}
    (h : CycleInv cfg rows₀ ctx) (hrows : Sound rows₀) : Sound ctx.catalog := by
  refine ⟨by rw [h.dbids]; exact hrows.dbids, fun row hrow => ?_⟩
  have hseg : row.segindex ∈ rows₀.map (·.segindex) := by
    rw [← h.segindexes]
    exact List.mem_map_of_mem hrow
  obtain ⟨row₀, hrow₀, heq⟩ := List.mem_map.mp hseg
  obtain ⟨e, he, hcontent⟩ := List.mem_map.mp (h.covered row₀ hrow₀)
  obtain ⟨p₀, m₀, p, m, hrowsOf⟩ := (h.inv e he).rows
  exact ⟨p, m, hrowsOf.now, hrowsOf.content.trans (hcontent.trans heq)⟩

/-- **A probe cycle keeps the configuration sound**, whatever happens on the connections. It raises
no error, every content is in it, and of each the roles are swapped at most once, after as many
attempts as are allowed, of which none was answered for good. The messages that stop the
replication or promote a mirror are sent when the catalog says so already. -/
theorem probe_cycle (cfg : FtsSettings) {rows : Catalog} (hrows : Sound rows) {passes : List Pass}
    (hpasses : ∀ pass ∈ passes, pass.Asserted rows) :
    ∃ ctx, ftsWalRepMessageSegments cfg passes rows = .ok ctx ∧ Sound ctx.catalog ∧
      (∀ row ∈ rows, ∃ e ∈ ctx.perSegInfos, e.primary.segindex = row.segindex) ∧
      ∀ e ∈ ctx.perSegInfos,
        e.retryCount ≤ cfg.probeRetries ∧ RolesKept cfg rows ctx.catalog e ∧
          ∀ s ∈ e.sent, s.Justified := by
  have hinit : ∀ e ∈ (ftsWalRepInitProbeContext rows).perSegInfos, Between cfg rows rows e :=
    init_between hrows
  have hinv : CycleInv cfg rows (ftsWalRepInitProbeContext rows) :=
    ⟨rfl, rfl, init_contents_nodup hrows, fun row hrow => init_covered hrows hrow,
      fun e he => (hinit e he).toEntryInv⟩
  obtain ⟨ctx, hctx, h⟩ := messageLoop_returns hrows.dbids hpasses hinv hinit
  refine ⟨ctx, hctx, h.sound hrows, fun row hrow => ?_, fun e he => ?_⟩
  · exact List.mem_map.mp (h.covered row hrow)
  · exact ⟨(h.inv e he).own.retries, (h.inv e he).rolesKept, (h.inv e he).own.sent⟩

/-- A pair that is up and in sync. -/
def inSyncPair : Catalog := [⟨2, 0, .primary, .up, .inSync⟩, ⟨3, 0, .mirror, .up, .inSync⟩]

theorem inSyncPair_sound : Sound inSyncPair := by
  have hpair : OwnPair inSyncPair ⟨2, 0, .primary, .up, .inSync⟩ ⟨3, 0, .mirror, .up, .inSync⟩ :=
    ⟨⟨rfl, rfl, rfl, rfl, fun _ => rfl⟩, List.Perm.refl _⟩
  refine ⟨by decide, fun row hrow => ⟨_, _, hpair, ?_⟩⟩
  rcases List.mem_pair.mp hrow with rfl | rfl <;> rfl

/-- The mirror is not connected, but only for a short time: the primary asks to be probed again. -/
def graceOutcome : Outcome where
  connectStart := true
  connectTime := 0
  connectPoll := .ok
  ready := { pollin := true, pollout := true }
  sendQuery := true
  receive _ := .response false false true false true

def gracePass : Pass := ⟨fun _ => graceOutcome, 0, 2, none⟩

/-- No connection can be made. -/
def deadPass : Pass := ⟨fun _ => { graceOutcome with connectStart := false }, 0, 9, none⟩

/-- The primary answers the probe, and is gone at the retry. -/
def answeredThenDead : List Pass := [gracePass, gracePass, gracePass, deadPass, deadPass]

theorem answeredThenDead_asserted : ∀ pass ∈ answeredThenDead, pass.Asserted inSyncPair := by
  have hgrace (o : Outcome) (ho : o.receive .probe = .response false false true false true)
      (p m : SegmentConfig)
      (isMirrorAlive isInSync isSyncRepEnabled isRoleMirror retryRequested : Bool)
      (h : o.receive .probe =
        .response isMirrorAlive isInSync isSyncRepEnabled isRoleMirror retryRequested) :
      FtsResult.Asserted p m
        ⟨true, isMirrorAlive, isInSync, isSyncRepEnabled, isRoleMirror, retryRequested⟩ := by
    rw [ho] at h
    cases h
    exact ⟨Bool.noConfusion, Bool.noConfusion, Bool.noConfusion⟩
  intro pass hpass p m _ a b c d r h
  have ho : (pass.outcome p.segindex).receive .probe = .response false false true false true := by
    simp only [answeredThenDead, List.mem_cons, List.not_mem_nil, or_false] at hpass
    rcases hpass with rfl | rfl | rfl | rfl | rfl <;> rfl
  exact hgrace _ ho p m a b c d r h

theorem probe_cycle_answeredThenDead :
    Sound inSyncPair ∧ (∀ pass ∈ answeredThenDead, pass.Asserted inSyncPair) ∧
      ∃ ctx, ftsWalRepMessageSegments ⟨1, 20⟩ answeredThenDead inSyncPair = .ok ctx ∧
        Sound ctx.catalog ∧ ∀ e ∈ ctx.perSegInfos, RolesKept ⟨1, 20⟩ inSyncPair ctx.catalog e := by
  refine ⟨inSyncPair_sound, answeredThenDead_asserted, ?_⟩
  obtain ⟨ctx, hctx, hsound, -, he⟩ :=
    probe_cycle ⟨1, 20⟩ inSyncPair_sound answeredThenDead_asserted
  exact ⟨ctx, hctx, hsound, fun e hmem => (he e hmem).2.1⟩

/-- With one retry, a probe that is answered and one that fails are enough for the mirror to take
over: not every attempt has to fail. -/
theorem swap_after_answer :
    ¬ ∀ (cfg : FtsSettings) (rows : Catalog) (passes : List Pass), Sound rows →
      (∀ pass ∈ passes, pass.Asserted rows) →
        ∀ ctx, ftsWalRepMessageSegments cfg passes rows = .ok ctx → ∀ e ∈ ctx.perSegInfos,
          ∀ attempts ∈ e.swaps, ∀ a ∈ attempts, ∃ progress, a = .failed progress := by
  intro hall
  have hrun : (ftsWalRepMessageSegments ⟨1, 20⟩ answeredThenDead inSyncPair).toOption.map
      (fun ctx => ctx.perSegInfos.map (·.swaps)) =
        some [[[.answered true, .failed false]]] := by decide +kernel
  cases hctx : ftsWalRepMessageSegments ⟨1, 20⟩ answeredThenDead inSyncPair with
  | error err =>
    rw [hctx] at hrun
    cases hrun
  | ok ctx =>
    rw [hctx] at hrun
    have hswaps : ctx.perSegInfos.map (·.swaps) = [[[.answered true, .failed false]]] :=
      Option.some.inj hrun
    have hmem : [[Attempt.answered true, .failed false]] ∈ ctx.perSegInfos.map (·.swaps) := by
      rw [hswaps]
      exact List.mem_singleton_self _
    obtain ⟨e, he, hes⟩ := List.mem_map.mp hmem
    have hfailed := hall ⟨1, 20⟩ inSyncPair answeredThenDead inSyncPair_sound
      answeredThenDead_asserted ctx hctx e he [.answered true, .failed false]
      (by rw [hes]; exact List.mem_singleton_self _) (.answered true) List.mem_cons_self
    obtain ⟨progress, hprogress⟩ := hfailed
    cases hprogress

end Hdb.Fts
