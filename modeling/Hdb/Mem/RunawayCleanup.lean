import Hdb.Mem.Runaway
import Mathlib.Tactic

/-!
# One runaway session at a time, cleaned up exactly once

An event has members: the processes of the flagged session that were active. Their activation
version is below the version of the event, and every later activation or deactivation has a greater
one, so that a process can tell from its own versions whether it is a member (`ProcInv`). The
countdown of the flagged session is the number of members that have not been counted down, and the
detector flag is held by a detector or by the flagged session (`RunawayInv`).

Main result: `runaway_cleanup`.
-/

namespace Hdb.Mem

variable {P S : Type}

/-! ## The invariant -/

/-- The members of the latest event. -/
def latestMembers (events : List (RunawayEvent P S)) : List P :=
  (events.head?.map RunawayEvent.members).getD []

/-- What holds of a process `p` with variables `q`: how its versions and its place relate to the
latest event. -/
structure ProcInv (cfg : RunawayConfig P S) (currentVersion latest : Nat)
    (events : List (RunawayEvent P S)) (started cleaned : List (Nat × P)) (p : P) (q : Proc S) :
    Prop where
  act_le : q.activationVersion ≤ currentVersion
  deact_le : q.deactivationVersion ≤ currentVersion
  begin_le : q.beginCleanupRunawayVersion ≤ latest
  end_le : q.endCleanupRunawayVersion ≤ latest
  end_begin : q.endCleanupRunawayVersion = latest → q.beginCleanupRunawayVersion = latest
  started_iff : (latest, p) ∈ started ↔ q.beginCleanupRunawayVersion = latest ∧ latest ≠ 0
  cleaned_iff : (latest, p) ∈ cleaned ↔
    q.endCleanupRunawayVersion = latest ∧ latest ≠ 0 ∧ q.pc ≠ .finishing
  cleaning_iff : q.pc = .cleaning ↔
    q.beginCleanupRunawayVersion = latest ∧ q.endCleanupRunawayVersion ≠ latest
  finishing : q.pc = .finishing → q.endCleanupRunawayVersion = latest ∧ latest ≠ 0
  member : q.beginCleanupRunawayVersion = latest → latest ≠ 0 → p ∈ latestMembers events
  owes : p ∈ latestMembers events → q.beginCleanupRunawayVersion ≠ latest →
    q.activationVersion < latest ∧
      (q.isProcessActive = true ∧ (q.pc = .running ∨ q.pc = .finished) ∨
        q.isProcessActive = false ∧ q.pc = .deactivating ∧ latest < q.deactivationVersion)
  spared : p ∉ latestMembers events → (∀ e ∈ events.head?, cfg.sess p = e.session) →
    latest < q.activationVersion ∨
      q.isProcessActive = false ∧ (q.deactivationVersion < latest ∨ q.pc = .notStarted)
  idle_pc : q.pc = .deactivating ∨ q.pc = .notStarted ∨ q.pc = .exited → q.isProcessActive = false
  known : q.pc ≠ .notStarted → p ∈ cfg.procs

/-- Who holds the detector flag: nobody, a detector, or the flagged session. -/
def FlagHeld (st : RunawayState P S) : Prop :=
  (st.isRunawayDetector = 0 ∧ (∀ p, (st.proc p).detector = .none) ∧
      ∀ s, (st.session s).runawayStatus = .notRunaway) ∨
    (st.isRunawayDetector = 1 ∧ (∃ p, (st.proc p).detector ≠ .none ∧
        ∀ p', p' ≠ p → (st.proc p').detector = .none) ∧
      ∀ s, (st.session s).runawayStatus = .notRunaway) ∨
    (st.isRunawayDetector = 1 ∧ (∀ p, (st.proc p).detector = .none) ∧
      ∃ s, (st.session s).runawayStatus ≠ .notRunaway ∧
        ∀ s', s' ≠ s → (st.session s').runawayStatus = .notRunaway)

variable [DecidableEq P]

/-- The members of an event that have not been counted down. -/
def pending (cleaned : List (Nat × P)) (e : RunawayEvent P S) : List P :=
  e.members.filter fun p => (e.version, p) ∉ cleaned

/-- A flagged session is that of the latest event, its countdown is the number of members not
counted down, and when there are none, one that was is about to find the countdown at zero. -/
def FlaggedOk (cfg : RunawayConfig P S) (st : RunawayState P S) (s : S) : Prop :=
  ∃ e ∈ st.events.head?, e.session = s ∧ e.version ∉ st.resets ∧
    (st.session s).cleanupCountdown = ((pending st.cleaned e).length : Int) ∧
    (pending st.cleaned e = [] → ∃ p, (st.proc p).pc = .finished ∧ cfg.sess p = s)

/-- An event is the one under way, or all its members are counted down and its flag is taken
back. -/
def EventOk (st : RunawayState P S) (e : RunawayEvent P S) : Prop :=
  (e.version = st.latestRunawayVersion ∧ (st.session e.session).runawayStatus ≠ .notRunaway) ∨
    (e.version ∈ st.resets ∧ ∀ p ∈ e.members, (e.version, p) ∈ st.cleaned)

variable [DecidableEq S]

/-- The number of active processes of a session. -/
def activeCount (cfg : RunawayConfig P S) (proc : P → Proc S) (s : S) : Int :=
  ((cfg.procs.filter fun p => cfg.sess p == s && (proc p).isProcessActive).length : Nat)

structure RunawayInv (cfg : RunawayConfig P S) (st : RunawayState P S) : Prop where
  procs : ∀ p, ProcInv cfg st.currentVersion st.latestRunawayVersion st.events st.started st.cleaned
    p (st.proc p)
  latest_lt : st.latestRunawayVersion < st.currentVersion
  none_iff : st.latestRunawayVersion = 0 ↔ st.events = []
  head : ∀ e ∈ st.events.head?, e.version = st.latestRunawayVersion
  tail : ∀ e ∈ st.events.tail, e.version < st.latestRunawayVersion
  started_le : ∀ x ∈ st.started, x.1 ≤ st.latestRunawayVersion
  started_nodup : st.started.Nodup
  started_member : ∀ x ∈ st.started, ∃ e ∈ st.events, e.version = x.1 ∧ x.2 ∈ e.members
  cleaned_nodup : st.cleaned.Nodup
  cleaned_started : ∀ x ∈ st.cleaned, x ∈ st.started
  resets_le : ∀ v ∈ st.resets, v ≤ st.latestRunawayVersion
  resets_nodup : st.resets.Nodup
  members : ∀ e ∈ st.events, e.members.Nodup ∧ ∀ p ∈ e.members, cfg.sess p = e.session
  count : ∀ s, (st.session s).activeProcessCount = activeCount cfg st.proc s
  held : FlagHeld st
  chosen : ∀ p s r, (st.proc p).detector = .chosen s r → r ≠ .notRunaway
  unflagged : ∀ s, (st.session s).runawayStatus = .notRunaway →
    (st.session s).cleanupCountdown = cleanupCountdownBeforeRunaway
  flagged : ∀ s, (st.session s).runawayStatus ≠ .notRunaway → FlaggedOk cfg st s
  events : ∀ e ∈ st.events, EventOk st e

omit [DecidableEq P] in
theorem activeCount_init (cfg : RunawayConfig P S) (s : S) :
    activeCount cfg (runawayInit : RunawayState P S).proc s = 0 := by
  simp [activeCount, runawayInit]

theorem runawayInv_init (cfg : RunawayConfig P S) : RunawayInv cfg runawayInit where
  procs p := by
    constructor <;> simp [runawayInit, latestMembers]
  latest_lt := Nat.zero_lt_one
  none_iff := by simp [runawayInit]
  head := by simp [runawayInit]
  tail := by simp [runawayInit]
  started_le := by simp [runawayInit]
  started_nodup := List.nodup_nil
  started_member := by simp [runawayInit]
  cleaned_nodup := List.nodup_nil
  cleaned_started := by simp [runawayInit]
  resets_le := by simp [runawayInit]
  resets_nodup := List.nodup_nil
  members := by simp [runawayInit]
  count s := (activeCount_init cfg s).symm
  held := Or.inl ⟨rfl, fun _ => rfl, fun _ => rfl⟩
  chosen p s r h := by simp [runawayInit] at h
  unflagged _ _ := rfl
  flagged s h := absurd rfl h
  events := by simp [runawayInit]

/-! ## Counting -/

omit [DecidableEq P] [DecidableEq S] in
/-- Filters that differ at one entry only. -/
theorem length_filter_of_eq_off {l : List P} (hl : l.Nodup) {p : P} (hp : p ∈ l) {f f' : P → Bool}
    (h : ∀ x, x ≠ p → f' x = f x) :
    ((l.filter f').length : Int) = (l.filter f).length + (f' p).toNat - (f p).toNat := by
  induction l with
  | nil => exact absurd hp List.not_mem_nil
  | cons a l ih =>
    obtain ⟨ha, hl⟩ := List.nodup_cons.mp hl
    by_cases hap : a = p
    · subst hap
      have hrest : l.filter f' = l.filter f := by
        refine List.filter_congr ?_
        intro x hx
        exact h x fun hxa => ha (hxa ▸ hx)
      rw [List.filter_cons, List.filter_cons, hrest]
      cases f' a <;> cases f a <;> simp
    · have hpl : p ∈ l := (List.mem_cons.mp hp).resolve_left (Ne.symm hap)
      have := ih hl hpl
      rw [List.filter_cons, List.filter_cons, h a hap]
      cases f a
      · simpa using this
      · simp only [if_true, List.length_cons]
        omega

theorem activeCount_update (cfg : RunawayConfig P S) (proc : P → Proc S) {p : P}
    (hp : p ∈ cfg.procs) (q : Proc S) (s : S) :
    activeCount cfg (Function.update proc p q) s = activeCount cfg proc s +
      if cfg.sess p = s then ((q.isProcessActive.toNat : Int) - (proc p).isProcessActive.toNat)
      else 0 := by
  have hoff : ∀ x, x ≠ p → (cfg.sess x == s && (Function.update proc p q x).isProcessActive) =
      (cfg.sess x == s && (proc x).isProcessActive) := by
    intro x hx
    rw [Function.update_of_ne hx]
  rw [activeCount, activeCount, length_filter_of_eq_off cfg.nodup hp hoff, Function.update_self]
  by_cases hs : cfg.sess p = s
  · simp only [hs, beq_self_eq_true, Bool.true_and, if_true]
    omega
  · rw [beq_false_of_ne hs, if_neg hs]
    simp

/-! ## Steps of one process -/

variable {cfg : RunawayConfig P S} {st : RunawayState P S} {p : P}

/-- Change the variables of a process and the number of active processes of its session. -/
def RunawayState.setLocal (cfg : RunawayConfig P S) (st : RunawayState P S) (p : P) (n : Int)
    (q : Proc S) : RunawayState P S :=
  (st.setSession (cfg.sess p) { st.session (cfg.sess p) with activeProcessCount := n }).setProc p q

theorem setLocal_session (n : Int) (q : Proc S) (s : S) :
    ((st.setLocal cfg p n q).session s).runawayStatus = (st.session s).runawayStatus ∧
      ((st.setLocal cfg p n q).session s).cleanupCountdown = (st.session s).cleanupCountdown := by
  simp only [RunawayState.setLocal, RunawayState.setProc, RunawayState.setSession]
  by_cases hs : s = cfg.sess p
  · rw [hs, Function.update_self]
    exact ⟨rfl, rfl⟩
  · rw [Function.update_of_ne hs]
    exact ⟨rfl, rfl⟩

theorem setLocal_proc (n : Int) (q : Proc S) (p' : P) :
    (st.setLocal cfg p n q).proc p' = if p' = p then q else st.proc p' :=
  Function.update_apply _ _ _ _

theorem setProc_eq_setLocal (cfg : RunawayConfig P S) (st : RunawayState P S) (p : P)
    (q : Proc S) :
    st.setProc p q = st.setLocal cfg p (st.session (cfg.sess p)).activeProcessCount q := by
  simp [RunawayState.setLocal, RunawayState.setSession, RunawayState.setProc]

omit [DecidableEq P] [DecidableEq S] in
theorem FlagHeld.of_eq {st st' : RunawayState P S} (h : FlagHeld st)
    (hflag : st'.isRunawayDetector = st.isRunawayDetector)
    (hdet : ∀ p, (st'.proc p).detector = (st.proc p).detector)
    (hstat : ∀ s, (st'.session s).runawayStatus = (st.session s).runawayStatus) : FlagHeld st' := by
  simpa only [FlagHeld, hflag, hdet, hstat] using h

omit [DecidableEq P] [DecidableEq S] in
/-- The history only matters to a process in its own entries. -/
theorem ProcInv.of_started {cur latest : Nat} {events : List (RunawayEvent P S)}
    {started started' cleaned cleaned' : List (Nat × P)} {q : Proc S}
    (h : ProcInv cfg cur latest events started cleaned p q)
    (hs : (latest, p) ∈ started' ↔ (latest, p) ∈ started)
    (hc : (latest, p) ∈ cleaned' ↔ (latest, p) ∈ cleaned) :
    ProcInv cfg cur latest events started' cleaned' p q :=
  { h with started_iff := hs.trans h.started_iff, cleaned_iff := hc.trans h.cleaned_iff }

/-- The clean-ups begun by a step of `p`: none, or one of a member of the latest event that has not
begun one. -/
def StartedBy (st : RunawayState P S) (p : P) (started : List (Nat × P)) : Prop :=
  started = st.started ∨
    (started = (st.latestRunawayVersion, p) :: st.started ∧
      (st.latestRunawayVersion, p) ∉ st.started ∧
      ∃ e ∈ st.events.head?, e.version = st.latestRunawayVersion ∧ p ∈ e.members)

/-- A step that changes the variables of one process, which is not about to look at the countdown,
and may begin a clean-up. -/
theorem RunawayInv.setLocal (h : RunawayInv cfg st) {q : Proc S} {n : Int}
    {started : List (Nat × P)} (hstart : StartedBy st p started)
    (hq : ProcInv cfg st.currentVersion st.latestRunawayVersion st.events started st.cleaned p q)
    (hdet : q.detector = (st.proc p).detector) (hfin : (st.proc p).pc ≠ .finished)
    (hp : p ∈ cfg.procs)
    (hn : n = (st.session (cfg.sess p)).activeProcessCount +
      ((q.isProcessActive.toNat : Int) - (st.proc p).isProcessActive.toNat)) :
    RunawayInv cfg ({ st with started := started }.setLocal cfg p n q) := by
  have hstat : ∀ s, (({ st with started := started }.setLocal cfg p n q).session s).runawayStatus =
      (st.session s).runawayStatus := fun s => (setLocal_session n q s).1
  have hcnt : ∀ s,
      (({ st with started := started }.setLocal cfg p n q).session s).cleanupCountdown =
      (st.session s).cleanupCountdown := fun s => (setLocal_session n q s).2
  have hdet' : ∀ p', (({ st with started := started }.setLocal cfg p n q).proc p').detector =
      (st.proc p').detector := by
    intro p'
    rw [setLocal_proc]
    split_ifs with hp'
    · rw [hp', hdet]
    · rfl
  have hsub : ∀ x ∈ st.started, x ∈ started := by
    intro x hx
    rcases hstart with rfl | ⟨rfl, -, -⟩
    · exact hx
    · exact List.mem_cons_of_mem _ hx
  refine { h with
    procs := ?_, count := ?_, held := h.held.of_eq rfl hdet' hstat, chosen := ?_, unflagged := ?_
    flagged := ?_, events := ?_, started_le := ?_, started_nodup := ?_, started_member := ?_
    cleaned_started := fun x hx => hsub x (h.cleaned_started x hx) }
  · intro p'
    rw [setLocal_proc]
    split_ifs with hp'
    · rw [hp']
      exact hq
    · refine (h.procs p').of_started ?_ Iff.rfl
      rcases hstart with rfl | ⟨rfl, -, -⟩
      · exact Iff.rfl
      · constructor
        · intro hmem
          rcases List.mem_cons.mp hmem with he | hmem
          · exact absurd (Prod.mk.inj he).2 hp'
          · exact hmem
        · exact List.mem_cons_of_mem _
  · intro x hx
    rcases hstart with rfl | ⟨rfl, -, -⟩
    · exact h.started_le x hx
    · rcases List.mem_cons.mp hx with rfl | hx
      · exact le_rfl
      · exact h.started_le x hx
  · rcases hstart with rfl | ⟨rfl, hnew, -⟩
    · exact h.started_nodup
    · exact List.nodup_cons.mpr ⟨hnew, h.started_nodup⟩
  · intro x hx
    rcases hstart with rfl | ⟨rfl, -, e, he, hv, hm⟩
    · exact h.started_member x hx
    · rcases List.mem_cons.mp hx with rfl | hx
      · exact ⟨e, List.mem_of_mem_head? he, hv, hm⟩
      · exact h.started_member x hx
  · intro s
    show (Function.update st.session (cfg.sess p) _ s).activeProcessCount =
      activeCount cfg (Function.update st.proc p q) s
    rw [activeCount_update cfg st.proc hp]
    by_cases hs : s = cfg.sess p
    · rw [hs, Function.update_self, if_pos rfl, ← h.count]
      exact hn
    · rw [Function.update_of_ne hs, if_neg (Ne.symm hs), h.count, Int.add_zero]
  · intro p' s r hr
    rw [hdet'] at hr
    exact h.chosen p' s r hr
  · intro s hs
    rw [hstat] at hs
    rw [hcnt]
    exact h.unflagged s hs
  · intro s hs
    rw [hstat] at hs
    obtain ⟨e, he, hes, hreset, hcount, hlast⟩ := h.flagged s hs
    refine ⟨e, he, hes, hreset, (hcnt s).trans hcount, ?_⟩
    intro hnil
    obtain ⟨p', hp', hsess⟩ := hlast hnil
    refine ⟨p', ?_, hsess⟩
    rw [setLocal_proc, if_neg]
    · exact hp'
    · intro he
      exact hfin (he ▸ hp')
  · intro e he
    rcases h.events e he with ⟨hv, hs⟩ | hover
    · exact Or.inl ⟨hv, by rw [hstat]; exact hs⟩
    · exact Or.inr hover

/-- The same with no clean-up begun. -/
theorem RunawayInv.setVars (h : RunawayInv cfg st) {q : Proc S} {n : Int}
    (hq : ProcInv cfg st.currentVersion st.latestRunawayVersion st.events st.started st.cleaned p q)
    (hdet : q.detector = (st.proc p).detector) (hfin : (st.proc p).pc ≠ .finished)
    (hp : p ∈ cfg.procs)
    (hn : n = (st.session (cfg.sess p)).activeProcessCount +
      ((q.isProcessActive.toNat : Int) - (st.proc p).isProcessActive.toNat)) :
    RunawayInv cfg (st.setLocal cfg p n q) :=
  h.setLocal (Or.inl rfl) hq hdet hfin hp hn

/-! ## Activation -/

/-- A process that is idle and not going idle owes no clean-up. -/
theorem RunawayInv.begun_of_idle (h : RunawayInv cfg st)
    (hidle : (st.proc p).isProcessActive = false) (hpc : (st.proc p).pc ≠ .deactivating)
    (hm : p ∈ latestMembers st.events) :
    (st.proc p).beginCleanupRunawayVersion = st.latestRunawayVersion := by
  by_contra hne
  obtain ⟨-, ⟨hact, -⟩ | ⟨-, hpc', -⟩⟩ := (h.procs p).owes hm hne
  · rw [hidle] at hact
    exact Bool.false_ne_true hact
  · exact hpc hpc'

/-- Activation with variables that owe no clean-up. -/
theorem RunawayInv.activate (h : RunawayInv cfg st) {q : Proc S}
    (hq : ProcInv cfg st.currentVersion st.latestRunawayVersion st.events st.started st.cleaned p
      { q with isProcessActive := true, activationVersion := st.currentVersion })
    (hdet : q.detector = (st.proc p).detector) (hfin : (st.proc p).pc ≠ .finished)
    (hp : p ∈ cfg.procs) (hidle : (st.proc p).isProcessActive = false) :
    RunawayInv cfg (idleTrackerActivateProcess cfg st p q) :=
  h.setVars hq hdet hfin hp (by simp [hidle])

theorem RunawayInv.activateProcess (h : RunawayInv cfg st) (hpc : (st.proc p).pc = .running)
    (hidle : (st.proc p).isProcessActive = false) :
    RunawayInv cfg (idleTrackerActivateProcess cfg st p (st.proc p)) := by
  have hq := h.procs p
  refine h.activate { hq with
    act_le := le_rfl
    owes := fun hm hne => absurd (h.begun_of_idle hidle (by simp [hpc]) hm) hne
    spared := fun _ _ => Or.inl h.latest_lt
    idle_pc := fun hc => by simp [hpc] at hc } rfl (by simp [hpc]) (hq.known (by simp [hpc])) hidle

theorem RunawayInv.start (h : RunawayInv cfg st) (hp : p ∈ cfg.procs)
    (hpc : (st.proc p).pc = .notStarted) :
    RunawayInv cfg (idleTrackerActivateProcess cfg st p { st.proc p with pc := .running }) := by
  have hq := h.procs p
  have hidle := hq.idle_pc (Or.inr (Or.inl hpc))
  refine h.activate { hq with
    act_le := le_rfl
    cleaned_iff := by simpa [hpc] using hq.cleaned_iff
    cleaning_iff := by simpa [hpc] using hq.cleaning_iff
    finishing := fun hf => by cases hf
    owes := fun hm hne => absurd (h.begun_of_idle hidle (by simp [hpc]) hm) hne
    spared := fun _ _ => Or.inl h.latest_lt
    idle_pc := fun hc => by simp at hc
    known := fun _ => hp } rfl (by simp [hpc]) hp hidle

theorem RunawayInv.deactivateProcess (h : RunawayInv cfg st) (hpc : (st.proc p).pc = .running)
    (hact : (st.proc p).isProcessActive = true) :
    RunawayInv cfg (idleTrackerDeactivateProcess cfg st p) := by
  have hq := h.procs p
  refine h.setVars { hq with
    deact_le := le_rfl
    cleaned_iff := by simpa [hpc] using hq.cleaned_iff
    cleaning_iff := by simpa [hpc] using hq.cleaning_iff
    finishing := fun hf => by cases hf
    owes := fun hm hne => ⟨(hq.owes hm hne).1, Or.inr ⟨rfl, rfl, h.latest_lt⟩⟩
    spared := ?_
    idle_pc := fun _ => rfl
    known := fun _ => hq.known (by simp [hpc]) } rfl (by simp [hpc]) (hq.known (by simp [hpc]))
    (by simp [hact]; omega)
  intro hm hs
  rcases hq.spared hm hs with hlt | ⟨hidle, -⟩
  · exact Or.inl hlt
  · rw [hact] at hidle
    exact absurd hidle (by decide)

theorem RunawayInv.exit (h : RunawayInv cfg st) (hpc : (st.proc p).pc = .running)
    (hidle : (st.proc p).isProcessActive = false) :
    RunawayInv cfg (st.setProc p { st.proc p with pc := .exited }) := by
  have hq := h.procs p
  rw [setProc_eq_setLocal cfg]
  refine h.setVars { hq with
    cleaned_iff := by simpa [hpc] using hq.cleaned_iff
    cleaning_iff := by simpa [hpc] using hq.cleaning_iff
    finishing := fun hf => by cases hf
    owes := fun hm hne => absurd (h.begun_of_idle hidle (by simp [hpc]) hm) hne
    spared := fun hm hs => by simpa [hpc] using hq.spared hm hs
    idle_pc := fun _ => hidle
    known := fun _ => hq.known (by simp [hpc]) } rfl (by simp [hpc]) (hq.known (by simp [hpc]))
    (by simp)

/-! ## Clean-up -/

/-- The latest event, of a process that is a member of it. -/
theorem RunawayInv.event_of_member (h : RunawayInv cfg st) (hm : p ∈ latestMembers st.events) :
    ∃ e ∈ st.events.head?, e.version = st.latestRunawayVersion ∧ p ∈ e.members ∧
      cfg.sess p = e.session := by
  cases hev : st.events.head? with
  | none => simp [latestMembers, hev] at hm
  | some e =>
    have hm' : p ∈ e.members := by simpa [latestMembers, hev] using hm
    have hmem : e ∈ st.events := List.mem_of_mem_head? hev
    exact ⟨e, rfl, h.head e hev, hm', (h.members e hmem).2 p hm'⟩

/-- A member that is not counted down has its session flagged. -/
theorem RunawayInv.flagged_of_member (h : RunawayInv cfg st) (hm : p ∈ latestMembers st.events)
    (hc : (st.latestRunawayVersion, p) ∉ st.cleaned) :
    (st.session (cfg.sess p)).runawayStatus ≠ .notRunaway := by
  obtain ⟨e, he, hv, hmem, hs⟩ := h.event_of_member hm
  rcases h.events e (List.mem_of_mem_head? he) with ⟨-, hstat⟩ | ⟨-, hall⟩
  · rw [hs]
    exact hstat
  · exact absurd (hv ▸ hall p hmem) hc

/-- **A process begins a clean-up exactly when it owes one.** -/
theorem RunawayInv.shouldStart_iff (h : RunawayInv cfg st)
    (hpc : (st.proc p).pc = .running ∨ (st.proc p).pc = .deactivating) :
    shouldStartRunawayCleanup cfg st p = true ↔
      p ∈ latestMembers st.events ∧
        (st.proc p).beginCleanupRunawayVersion ≠ st.latestRunawayVersion := by
  have hq := h.procs p
  constructor
  · intro hs
    simp only [shouldStartRunawayCleanup] at hs
    split_ifs at hs with hc hact
    · refine ⟨?_, hc.2⟩
      by_contra hm
      obtain ⟨e, he, hes, -, -, -⟩ := h.flagged _ hc.1
      rcases hq.spared hm fun e' he' => by
        rw [Option.mem_def.mp he] at he'
        rw [← Option.some.inj he', hes] with hlt | ⟨hidle, -⟩
      · omega
      · rw [hidle] at hact
        exact Bool.false_ne_true hact.1
    · simp only [decide_eq_true_eq] at hs
      refine ⟨?_, hc.2⟩
      by_contra hm
      obtain ⟨e, he, hes, -, -, -⟩ := h.flagged _ hc.1
      rcases hq.spared hm fun e' he' => by
        rw [Option.mem_def.mp he] at he'
        rw [← Option.some.inj he', hes] with hlt | ⟨-, hlt | hns⟩
      · omega
      · omega
      · rcases hpc with hpc | hpc <;> simp [hpc] at hns
  · intro hs
    obtain ⟨hm, hne⟩ := hs
    have hlive : (st.session (cfg.sess p)).runawayStatus ≠ .notRunaway := by
      refine h.flagged_of_member hm ?_
      intro hc
      exact hne (hq.end_begin (hq.cleaned_iff.mp hc).1)
    simp only [shouldStartRunawayCleanup]
    rw [if_pos ⟨hlive, hne⟩]
    obtain ⟨hlt, ⟨hact, -⟩ | ⟨hidle, -, hd⟩⟩ := hq.owes hm hne
    · rw [if_pos ⟨hact, hlt⟩]
    · rw [if_neg (by simp [hidle])]
      exact decide_eq_true ⟨hidle, hd, hlt⟩

omit [DecidableEq P] [DecidableEq S] in
/-- Going on running, for a process that owes no clean-up it could not see. -/
theorem ProcInv.running {cur latest : Nat} {events : List (RunawayEvent P S)}
    {started cleaned : List (Nat × P)} {q : Proc S}
    (h : ProcInv cfg cur latest events started cleaned p q) (hstarted : q.pc ≠ .notStarted)
    (hcl : q.pc ≠ .cleaning) (hfin : q.pc ≠ .finishing)
    (howes : p ∈ latestMembers events → q.beginCleanupRunawayVersion ≠ latest →
      q.isProcessActive = true) :
    ProcInv cfg cur latest events started cleaned p { q with pc := .running } :=
  { h with
    cleaned_iff := by simpa [hfin] using h.cleaned_iff
    cleaning_iff := by simpa [hcl] using h.cleaning_iff
    finishing := fun hf => by cases hf
    owes := fun hm hne => ⟨(h.owes hm hne).1, Or.inl ⟨howes hm hne, Or.inl rfl⟩⟩
    spared := fun hm hs => by simpa [hstarted] using h.spared hm hs
    idle_pc := fun hc => by simp at hc
    known := fun _ => h.known hstarted }

theorem RunawayInv.startCleanup (h : RunawayInv cfg st)
    (hpc : (st.proc p).pc = .running ∨ (st.proc p).pc = .deactivating) (shouldCancelQuery : Bool) :
    RunawayInv cfg (startCleanup cfg st p shouldCancelQuery) := by
  have hq := h.procs p
  have hknown : (st.proc p).pc ≠ .notStarted := by rcases hpc with hpc | hpc <;> simp [hpc]
  have hcl : (st.proc p).pc ≠ .cleaning := by rcases hpc with hpc | hpc <;> simp [hpc]
  have hfg : (st.proc p).pc ≠ .finishing := by rcases hpc with hpc | hpc <;> simp [hpc]
  have hfin : (st.proc p).pc ≠ .finished := by rcases hpc with hpc | hpc <;> simp [hpc]
  rw [Mem.startCleanup]
  by_cases hs : shouldStartRunawayCleanup cfg st p = true
  · rw [if_pos hs]
    obtain ⟨hm, hne⟩ := (h.shouldStart_iff hpc).mp hs
    obtain ⟨e, he, hv, hmem, -⟩ := h.event_of_member hm
    have hpos : st.latestRunawayVersion ≠ 0 := by
      intro h0
      rw [h.none_iff.mp h0] at he
      cases he
    have hnew : (st.latestRunawayVersion, p) ∉ st.started := fun hc =>
      hne (hq.started_iff.mp hc).1
    have hend : (st.proc p).endCleanupRunawayVersion ≠ st.latestRunawayVersion := fun hc =>
      hne (hq.end_begin hc)
    have hclean : (st.latestRunawayVersion, p) ∉ st.cleaned := fun hc =>
      hend (hq.cleaned_iff.mp hc).1
    have hby : StartedBy st p ((st.latestRunawayVersion, p) :: st.started) :=
      Or.inr ⟨rfl, hnew, e, he, hv, hmem⟩
    cases shouldCancelQuery with
    | true =>
      rw [if_pos rfl, setProc_eq_setLocal cfg]
      refine h.setLocal hby { hq with
        begin_le := le_rfl
        end_begin := fun _ => rfl
        started_iff := by simp [hpos]
        cleaned_iff := by simpa [hfg] using hq.cleaned_iff
        cleaning_iff := by simp [hend]
        finishing := fun hf => by cases hf
        member := fun _ _ => hm
        owes := fun _ hne => absurd rfl hne
        spared := fun hm' => absurd hm hm'
        idle_pc := fun hc => by simp at hc
        known := fun _ => hq.known hknown } rfl hfin (hq.known hknown) (by simp)
    | false =>
      rw [if_neg Bool.false_ne_true, setProc_eq_setLocal cfg]
      refine h.setLocal hby { hq with
        begin_le := le_rfl
        end_le := le_rfl
        end_begin := fun _ => rfl
        started_iff := by simp [hpos]
        cleaned_iff := by simp [hclean]
        cleaning_iff := by simp
        finishing := fun _ => ⟨rfl, hpos⟩
        member := fun _ _ => hm
        owes := fun _ hne => absurd rfl hne
        spared := fun hm' => absurd hm hm'
        idle_pc := fun hc => by simp at hc
        known := fun _ => hq.known hknown } rfl hfin (hq.known hknown) (by simp)
  · rw [if_neg hs, setProc_eq_setLocal cfg]
    refine h.setVars (hq.running hknown hcl hfg ?_) rfl hfin (hq.known hknown) (by simp)
    intro hm hne
    exact absurd ((h.shouldStart_iff hpc).mpr ⟨hm, hne⟩) hs

theorem RunawayInv.cleanupDoneForProcess (h : RunawayInv cfg st)
    (hpc : (st.proc p).pc = .running ∨ (st.proc p).pc = .cleaning) :
    RunawayInv cfg (cleanupDoneForProcess cfg st p) := by
  have hq := h.procs p
  have hknown : (st.proc p).pc ≠ .notStarted := by rcases hpc with hpc | hpc <;> simp [hpc]
  have hfin : (st.proc p).pc ≠ .finished := by rcases hpc with hpc | hpc <;> simp [hpc]
  have hfg : (st.proc p).pc ≠ .finishing := by rcases hpc with hpc | hpc <;> simp [hpc]
  rw [Mem.cleanupDoneForProcess]
  by_cases hc : (st.proc p).pc = .cleaning
  · obtain ⟨hb, hend⟩ := hq.cleaning_iff.mp hc
    have hpos : st.latestRunawayVersion ≠ 0 := by
      intro h0
      have hle := hq.end_le
      omega
    have hm := hq.member hb hpos
    have hclean : (st.latestRunawayVersion, p) ∉ st.cleaned := fun hc =>
      hend (hq.cleaned_iff.mp hc).1
    rw [if_neg (by rw [hb]; simp [hend])]
    by_cases hact : (st.proc p).isProcessActive = true
    · rw [if_pos hact, setProc_eq_setLocal cfg]
      refine h.setVars { hq with
        end_le := hq.begin_le
        end_begin := fun _ => hb
        cleaned_iff := by simp [hclean]
        cleaning_iff := by simp [hb]
        finishing := fun _ => ⟨hb, hpos⟩
        owes := fun _ hne => absurd hb hne
        spared := fun hm' => absurd hm hm'
        idle_pc := fun hc => by simp at hc
        known := fun _ => hq.known hknown } rfl hfin (hq.known hknown) (by simp)
    · rw [if_neg hact]
      refine h.activate { hq with
        act_le := le_rfl
        end_le := hq.begin_le
        end_begin := fun _ => hb
        cleaned_iff := by simp [hclean]
        cleaning_iff := by simp [hb]
        finishing := fun _ => ⟨hb, hpos⟩
        owes := fun _ hne => absurd hb hne
        spared := fun hm' => absurd hm hm'
        idle_pc := fun hc => by simp at hc
        known := fun _ => hq.known hknown } rfl hfin (hq.known hknown) (by simpa using hact)
  · have hrun := hpc.resolve_right hc
    have hdone : (st.proc p).beginCleanupRunawayVersion = st.latestRunawayVersion →
        (st.proc p).endCleanupRunawayVersion = st.latestRunawayVersion := by
      intro hb
      by_contra hend
      exact hc (hq.cleaning_iff.mpr ⟨hb, hend⟩)
    rw [if_pos, setProc_eq_setLocal cfg]
    · refine h.setVars (hq.running hknown hc hfg ?_) rfl hfin (hq.known hknown) (by simp)
      intro hm hne
      obtain ⟨-, ⟨hact, -⟩ | ⟨-, hpc', -⟩⟩ := hq.owes hm hne
      · exact hact
      · rw [hrun] at hpc'
        cases hpc'
    · by_cases hb : (st.proc p).beginCleanupRunawayVersion = st.latestRunawayVersion
      · exact Or.inr ((hdone hb).trans hb.symm)
      · exact Or.inl hb

omit [DecidableEq S] in
/-- Counting a member down takes it off the pending ones. -/
theorem pending_cons {cleaned : List (Nat × P)} {e : RunawayEvent P S} (hnodup : e.members.Nodup)
    (hm : p ∈ e.members) (hc : (e.version, p) ∉ cleaned) :
    ((pending ((e.version, p) :: cleaned) e).length : Int) = (pending cleaned e).length - 1 := by
  have hoff : ∀ x, x ≠ p → decide ((e.version, x) ∉ (e.version, p) :: cleaned) =
      decide ((e.version, x) ∉ cleaned) := by
    intro x hx
    simp [hx]
  rw [pending, length_filter_of_eq_off hnodup hm hoff]
  simp [hc, pending]

theorem RunawayInv.countDown (h : RunawayInv cfg st) (hpc : (st.proc p).pc = .finishing) :
    RunawayInv cfg (countDown cfg st p) := by
  have hq := h.procs p
  obtain ⟨hend, hpos⟩ := hq.finishing hpc
  have hb := hq.end_begin hend
  have hm := hq.member hb hpos
  have hnew : (st.latestRunawayVersion, p) ∉ st.cleaned := fun hc =>
    (hq.cleaned_iff.mp hc).2.2 hpc
  obtain ⟨e, he, hv, hmem, hsess⟩ := h.event_of_member hm
  have hlive := h.flagged_of_member hm hnew
  have hstat : ∀ s, ((Mem.countDown cfg st p).session s).runawayStatus =
      (st.session s).runawayStatus := by
    intro s
    simp only [Mem.countDown, RunawayState.setProc, RunawayState.setSession]
    by_cases hs : s = cfg.sess p
    · rw [hs, Function.update_self]
    · rw [Function.update_of_ne hs]
  have hact : ∀ s, ((Mem.countDown cfg st p).session s).activeProcessCount =
      (st.session s).activeProcessCount := by
    intro s
    simp only [Mem.countDown, RunawayState.setProc, RunawayState.setSession]
    by_cases hs : s = cfg.sess p
    · rw [hs, Function.update_self]
    · rw [Function.update_of_ne hs]
  have hproc : ∀ p', (Mem.countDown cfg st p).proc p' =
      if p' = p then { st.proc p with pc := .finished } else st.proc p' := fun p' =>
    Function.update_apply _ _ _ _
  refine { h with
    procs := ?_, cleaned_nodup := List.nodup_cons.mpr ⟨hnew, h.cleaned_nodup⟩
    cleaned_started := ?_, count := ?_, held := ?_, chosen := ?_, unflagged := ?_, flagged := ?_
    events := ?_ }
  · intro p'
    show ProcInv cfg st.currentVersion st.latestRunawayVersion st.events st.started
      ((st.latestRunawayVersion, p) :: st.cleaned) p' ((Mem.countDown cfg st p).proc p')
    rw [hproc]
    split_ifs with hp'
    · subst hp'
      exact { hq with
        cleaned_iff := by simp [hend, hpos]
        cleaning_iff := by simp [hend]
        finishing := fun hf => by cases hf
        owes := fun _ hne => absurd hb hne
        spared := fun hm' => absurd hm hm'
        idle_pc := fun hc => by simp at hc
        known := fun _ => hq.known (by simp [hpc]) }
    · refine (h.procs p').of_started Iff.rfl ?_
      simp [hp']
  · intro x hx
    rcases List.mem_cons.mp hx with rfl | hx
    · exact hq.started_iff.mpr ⟨hb, hpos⟩
    · exact h.cleaned_started x hx
  · intro s
    rw [hact, h.count, activeCount, activeCount]
    congr 2
    refine List.filter_congr ?_
    intro x _
    rw [hproc]
    split_ifs with hx
    · rw [hx]
    · rfl
  · refine h.held.of_eq rfl ?_ hstat
    intro p'
    rw [hproc]
    split_ifs with hp'
    · rw [hp']
    · rfl
  · intro p' s r hr
    rw [hproc] at hr
    split_ifs at hr with hp'
    · exact h.chosen p s r hr
    · exact h.chosen p' s r hr
  · intro s hs
    rw [hstat] at hs
    have hne : s ≠ cfg.sess p := fun he => hlive (he ▸ hs)
    show (Function.update st.session (cfg.sess p) _ s).cleanupCountdown = _
    rw [Function.update_of_ne hne]
    exact h.unflagged s hs
  · intro s hs
    rw [hstat] at hs
    obtain ⟨e', he', hes, hreset, hcount, -⟩ := h.flagged s hs
    have hee : e' = e := Option.some.inj ((Option.mem_def.mp he').symm.trans (Option.mem_def.mp he))
    subst hee
    have hss : s = cfg.sess p := hes.symm.trans hsess.symm
    refine ⟨e', he', hes, hreset, ?_, fun _ => ⟨p, ?_, hss.symm⟩⟩
    · show (Function.update st.session (cfg.sess p) _ s).cleanupCountdown =
        ((pending ((st.latestRunawayVersion, p) :: st.cleaned) e').length : Int)
      rw [hss, Function.update_self, ← hv,
        pending_cons (h.members e' (List.mem_of_mem_head? he)).1 hmem (hv ▸ hnew), ← hcount, hss]
    · rw [hproc, if_pos rfl]
  · intro e' he'
    rcases h.events e' he' with ⟨hv', hs⟩ | ⟨hr, hall⟩
    · exact Or.inl ⟨hv', by rw [hstat]; exact hs⟩
    · exact Or.inr ⟨hr, fun p' hp' => List.mem_cons_of_mem _ (hall p' hp')⟩

omit [DecidableEq P] in
/-- The number of active processes does not change with anything else of a process. -/
theorem activeCount_congr {proc proc' : P → Proc S}
    (h : ∀ p, (proc' p).isProcessActive = (proc p).isProcessActive) (s : S) :
    activeCount cfg proc' s = activeCount cfg proc s := by
  simp only [activeCount, h]

/-- A process that has looked at the countdown goes on running. -/
theorem RunawayInv.resume (h : RunawayInv cfg st) (hpc : (st.proc p).pc = .finished)
    (hcount : (st.session (cfg.sess p)).cleanupCountdown ≠ 0) :
    RunawayInv cfg (st.setProc p { st.proc p with pc := .running }) := by
  have hq := h.procs p
  have hproc : ∀ p', (st.setProc p { st.proc p with pc := .running }).proc p' =
      if p' = p then { st.proc p with pc := .running } else st.proc p' := fun p' =>
    Function.update_apply _ _ _ _
  have hdet : ∀ p', ((st.setProc p { st.proc p with pc := .running }).proc p').detector =
      (st.proc p').detector := by
    intro p'
    rw [hproc]
    split_ifs with hp'
    · rw [hp']
    · rfl
  refine { h with
    procs := ?_, count := ?_, held := h.held.of_eq rfl hdet fun _ => rfl, chosen := ?_
    flagged := ?_ }
  · intro p'
    rw [hproc]
    split_ifs with hp'
    · subst hp'
      refine hq.running (by simp [hpc]) (by simp [hpc]) (by simp [hpc]) ?_
      intro hm hne
      obtain ⟨-, ⟨hact, -⟩ | ⟨-, hpc', -⟩⟩ := hq.owes hm hne
      · exact hact
      · rw [hpc] at hpc'
        cases hpc'
    · exact h.procs p'
  · intro s
    refine (h.count s).trans (activeCount_congr ?_ s).symm
    intro p'
    rw [hproc]
    split_ifs with hp'
    · rw [hp']
    · rfl
  · intro p' s r hr
    rw [hdet] at hr
    exact h.chosen p' s r hr
  · intro s hs
    obtain ⟨e, he, hes, hreset, hc, hlast⟩ := h.flagged s hs
    refine ⟨e, he, hes, hreset, hc, ?_⟩
    intro hnil
    change pending st.cleaned e = [] at hnil
    obtain ⟨p', hp', hsess⟩ := hlast hnil
    -- Another process: the session of `p` is not at zero.
    have hne : p' ≠ p := by
      intro hpp
      rw [hpp] at hsess
      rw [← hsess, hnil] at hc
      exact hcount hc
    exact ⟨p', by rw [hproc, if_neg hne]; exact hp', hsess⟩

/-- Taking the flag back. -/
theorem RunawayInv.reset (h : RunawayInv cfg st) {s : S}
    (hcount : (st.session s).cleanupCountdown = 0) :
    (st.session s).runawayStatus ≠ .notRunaway ∧
    RunawayInv cfg { st with
      isRunawayDetector := 0
      session := Function.update st.session s { st.session s with
        cleanupCountdown := cleanupCountdownBeforeRunaway, runawayStatus := .notRunaway }
      resets := st.latestRunawayVersion :: st.resets } := by
  have hlive : (st.session s).runawayStatus ≠ .notRunaway := by
    intro hs
    rw [h.unflagged s hs] at hcount
    exact absurd hcount (by decide)
  refine ⟨hlive, ?_⟩
  obtain ⟨e, he, hes, hreset, hc, -⟩ := h.flagged s hlive
  have hv := h.head e he
  have hnil : pending st.cleaned e = [] := by
    rw [hcount] at hc
    exact List.length_eq_zero_iff.mp (by omega)
  have hother : ∀ s', s' ≠ s → (st.session s').runawayStatus = .notRunaway := by
    intro s' hne
    by_contra hs'
    obtain ⟨e', he', hes', -⟩ := h.flagged s' hs'
    have hee : e' = e := Option.some.inj ((Option.mem_def.mp he').symm.trans (Option.mem_def.mp he))
    exact hne (hes'.symm.trans (hee ▸ hes))
  have hnot : ∀ s', (Function.update st.session s { st.session s with
      cleanupCountdown := cleanupCountdownBeforeRunaway,
      runawayStatus := .notRunaway } s').runawayStatus = .notRunaway := by
    intro s'
    by_cases hs' : s' = s
    · rw [hs', Function.update_self]
    · rw [Function.update_of_ne hs']
      exact hother s' hs'
  have hnodet : ∀ p, (st.proc p).detector = .none := by
    rcases h.held with ⟨-, -, hall⟩ | ⟨-, -, hall⟩ | ⟨-, hnone, -⟩
    · exact absurd (hall s) hlive
    · exact absurd (hall s) hlive
    · exact hnone
  refine { h with
    resets_le := ?_, resets_nodup := List.nodup_cons.mpr ⟨hv ▸ hreset, h.resets_nodup⟩
    count := ?_, held := Or.inl ⟨rfl, hnodet, hnot⟩, unflagged := ?_
    flagged := fun s' hs' => absurd (hnot s') hs', events := ?_ }
  · intro v hv'
    rcases List.mem_cons.mp hv' with rfl | hv'
    · exact le_rfl
    · exact h.resets_le v hv'
  · intro s'
    refine Eq.trans ?_ (h.count s')
    show (Function.update st.session s _ s').activeProcessCount = _
    by_cases hs' : s' = s
    · rw [hs', Function.update_self]
    · rw [Function.update_of_ne hs']
  · intro s' _
    show (Function.update st.session s _ s').cleanupCountdown = _
    by_cases hs' : s' = s
    · rw [hs', Function.update_self]
    · rw [Function.update_of_ne hs']
      exact h.unflagged s' (hother s' hs')
  · intro e' he'
    rcases h.events e' he' with ⟨hv', -⟩ | ⟨hr, hall⟩
    · -- The event under way is the latest one, and has nobody pending.
      have hee : e' = e := by
        by_contra hne
        have htail : e' ∈ st.events.tail := by
          obtain ⟨rest, hev⟩ := List.head?_eq_some_iff.mp (Option.mem_def.mp he)
          rw [hev] at he' ⊢
          exact (List.mem_cons.mp he').resolve_left hne
        exact absurd hv' (h.tail e' htail).ne
      subst hee
      refine Or.inr ⟨by rw [hv']; exact List.mem_cons_self, ?_⟩
      intro p' hp'
      by_contra hc'
      have : p' ∈ pending st.cleaned e' := List.mem_filter.mpr ⟨hp', by simpa using hc'⟩
      rw [hnil] at this
      exact absurd this List.not_mem_nil
    · exact Or.inr ⟨List.mem_cons_of_mem _ hr, hall⟩

theorem RunawayInv.finalCheck (h : RunawayInv cfg st) (hpc : (st.proc p).pc = .finished) :
    RunawayInv cfg (finalCheck cfg st p) := by
  rw [Mem.finalCheck]
  by_cases hcount : (st.session (cfg.sess p)).cleanupCountdown = 0
  · obtain ⟨hlive, hinv⟩ := h.reset hcount
    have hpc' : (RunawayState.proc { st with
        isRunawayDetector := 0
        session := Function.update st.session (cfg.sess p) { st.session (cfg.sess p) with
          cleanupCountdown := cleanupCountdownBeforeRunaway, runawayStatus := .notRunaway }
        resets := st.latestRunawayVersion :: st.resets } p).pc = .finished := hpc
    have hres := hinv.resume hpc' (by
      show (Function.update st.session (cfg.sess p) _ (cfg.sess p)).cleanupCountdown ≠ 0
      rw [Function.update_self]
      show (-1 : Int) ≠ 0
      decide)
    rw [if_pos hcount, cleanupDoneForSession]
    have hsame : ((((st.setProc p { st.proc p with pc := .running }).setSession (cfg.sess p)
        { st.session (cfg.sess p) with
          cleanupCountdown := cleanupCountdownBeforeRunaway }).session
            (cfg.sess p)).runawayStatus) =
        (st.session (cfg.sess p)).runawayStatus := by
      simp [RunawayState.setSession]
    rw [if_pos (by rw [hsame]; exact hlive)]
    simpa [RunawayState.setSession, RunawayState.setProc] using hres
  · rw [if_neg hcount]
    exact h.resume hpc hcount

/-! ## Detection -/

/-- A step of the detector on its own place and the detector flag. -/
theorem RunawayInv.setDetector (h : RunawayInv cfg st) {d : Detector S} {n : Nat}
    (hd : ∀ s r, d = .chosen s r → r ≠ .notRunaway)
    (hheld : FlagHeld { st.setProc p { st.proc p with detector := d } with
      isRunawayDetector := n }) :
    RunawayInv cfg
      { st.setProc p { st.proc p with detector := d } with isRunawayDetector := n } := by
  have hproc : ∀ p', (st.setProc p { st.proc p with detector := d }).proc p' =
      if p' = p then { st.proc p with detector := d } else st.proc p' := fun p' =>
    Function.update_apply _ _ _ _
  have hpc : ∀ p', ((st.setProc p { st.proc p with detector := d }).proc p').pc =
      (st.proc p').pc := by
    intro p'
    rw [hproc]
    split_ifs with hp'
    · rw [hp']
    · rfl
  refine { h with procs := ?_, count := ?_, held := hheld, chosen := ?_, flagged := ?_ }
  · intro p'
    show ProcInv cfg _ _ _ _ _ p' ((st.setProc p { st.proc p with detector := d }).proc p')
    rw [hproc]
    split_ifs with hp'
    · subst hp'
      exact { h.procs p' with }
    · exact h.procs p'
  · intro s
    refine (h.count s).trans (activeCount_congr ?_ s).symm
    intro p'
    show ((st.setProc p { st.proc p with detector := d }).proc p').isProcessActive = _
    rw [hproc]
    split_ifs with hp'
    · rw [hp']
    · rfl
  · intro p' s r hr
    change ((st.setProc p { st.proc p with detector := d }).proc p').detector = _ at hr
    rw [hproc] at hr
    split_ifs at hr
    · exact hd s r hr
    · exact h.chosen p' s r hr
  · intro s hs
    obtain ⟨e, he, hes, hreset, hc, hlast⟩ := h.flagged s hs
    refine ⟨e, he, hes, hreset, hc, fun hnil => ?_⟩
    obtain ⟨p', hp', hsess⟩ := hlast hnil
    exact ⟨p', (hpc p').trans hp', hsess⟩

/-- The others are not detecting while `p` is, and no session is flagged. -/
theorem RunawayInv.detecting (h : RunawayInv cfg st) (hd : (st.proc p).detector ≠ .none) :
    st.isRunawayDetector = 1 ∧ (∀ p', p' ≠ p → (st.proc p').detector = .none) ∧
      ∀ s, (st.session s).runawayStatus = .notRunaway := by
  rcases h.held with ⟨-, hnone, -⟩ | ⟨h₁, ⟨q, -, hothers⟩, hnot⟩ | ⟨-, hnone, -⟩
  · exact absurd (hnone p) hd
  · have hpq : p = q := by
      by_contra hne
      exact hd (hothers p hne)
    subst hpq
    exact ⟨h₁, hothers, hnot⟩
  · exact absurd (hnone p) hd

omit [DecidableEq S] in
theorem setProc_detector (st : RunawayState P S) (d : Detector S) (p' : P) :
    ((st.setProc p { st.proc p with detector := d }).proc p').detector =
      if p' = p then d else (st.proc p').detector := by
  simp only [RunawayState.setProc, Function.update_apply]
  split_ifs <;> rfl

theorem RunawayInv.tryDetect (h : RunawayInv cfg st) (hzero : st.isRunawayDetector = 0) :
    RunawayInv cfg { st.setProc p { st.proc p with detector := .scanning } with
      isRunawayDetector := 1 } := by
  refine h.setDetector (fun _ _ hc => by cases hc) (Or.inr (Or.inl ⟨rfl, ⟨p, ?_, ?_⟩, ?_⟩))
  · show ((st.setProc p { st.proc p with detector := .scanning }).proc p).detector ≠ .none
    rw [setProc_detector, if_pos rfl]
    simp
  · intro p' hne
    show ((st.setProc p { st.proc p with detector := .scanning }).proc p').detector = .none
    rw [setProc_detector, if_neg hne]
    rcases h.held with ⟨-, hnone, -⟩ | ⟨h₁, -, -⟩ | ⟨h₁, -, -⟩
    · exact hnone p'
    · omega
    · omega
  · rcases h.held with ⟨-, -, hnot⟩ | ⟨h₁, -, -⟩ | ⟨h₁, -, -⟩
    · exact hnot
    · omega
    · omega

/-- Giving the detector flag up. -/
theorem RunawayInv.giveUp (h : RunawayInv cfg st) (hd : (st.proc p).detector ≠ .none) :
    RunawayInv cfg { st.setProc p { st.proc p with detector := .none } with
      isRunawayDetector := 0 } := by
  obtain ⟨-, hothers, hnot⟩ := h.detecting hd
  refine h.setDetector (fun _ _ hc => by cases hc) (Or.inl ⟨rfl, ?_, hnot⟩)
  intro p'
  show ((st.setProc p { st.proc p with detector := .none }).proc p').detector = .none
  rw [setProc_detector]
  split_ifs with hp'
  · rfl
  · exact hothers p' hp'

theorem RunawayInv.scan (h : RunawayInv cfg st) (hd : (st.proc p).detector = .scanning)
    (seen : List (S × Int × Int)) : RunawayInv cfg (detectorScan st p seen) := by
  have hne : (st.proc p).detector ≠ .none := by
    rw [hd]
    simp
  obtain ⟨h₁, hothers, hnot⟩ := h.detecting hne
  rw [detectorScan]
  rcases htop : topConsumer seen with ⟨_ | s, top⟩
  · exact h.giveUp hne
  · have hstep := h.setDetector (p := p) (n := st.isRunawayDetector)
      (d := .chosen s (if some s = top then .primaryRunawaySession else .secondaryRunawaySession))
      (by
        intro s' r hc
        cases hc
        split_ifs <;> decide)
      (Or.inr (Or.inl ⟨h₁, ⟨p, by
        show ((st.setProc p { st.proc p with detector := _ }).proc p).detector ≠ .none
        rw [setProc_detector, if_pos rfl]
        simp, by
        intro p' hp'
        show ((st.setProc p { st.proc p with detector := _ }).proc p').detector = .none
        rw [setProc_detector, if_neg hp']
        exact hothers p' hp'⟩, hnot⟩))
    exact hstep

/-- The event of flagging a session. Its members are the active processes of the session. -/
def flagEvent (cfg : RunawayConfig P S) (st : RunawayState P S) (s : S) : RunawayEvent P S :=
  ⟨st.currentVersion + 1, s, cfg.procs.filter fun p =>
    cfg.sess p == s && (st.proc p).isProcessActive⟩

omit [DecidableEq P] in
theorem mem_flagEvent {s : S} : p ∈ (flagEvent cfg st s).members ↔
    p ∈ cfg.procs ∧ cfg.sess p = s ∧ (st.proc p).isProcessActive = true := by
  simp [flagEvent]

/-- While no session is flagged, all events are over. -/
theorem RunawayInv.events_over (h : RunawayInv cfg st)
    (hnot : ∀ s, (st.session s).runawayStatus = .notRunaway) {e : RunawayEvent P S}
    (he : e ∈ st.events) : e.version ∈ st.resets ∧
    ∀ p ∈ e.members, (e.version, p) ∈ st.cleaned := by
  rcases h.events e he with ⟨-, hs⟩ | hover
  · exact absurd (hnot e.session) hs
  · exact hover

/-- While no session is flagged, no process is in a clean-up. -/
theorem RunawayInv.no_cleanup (h : RunawayInv cfg st)
    (hnot : ∀ s, (st.session s).runawayStatus = .notRunaway) (p : P) :
    (st.proc p).pc ≠ .cleaning ∧ (st.proc p).pc ≠ .finishing := by
  have hq := h.procs p
  have hdone : p ∈ latestMembers st.events → (st.latestRunawayVersion, p) ∈ st.cleaned := by
    intro hm
    obtain ⟨e, he, hv, hmem, -⟩ := h.event_of_member hm
    exact hv ▸ (h.events_over hnot (List.mem_of_mem_head? he)).2 p hmem
  constructor
  · intro hc
    obtain ⟨hb, hend⟩ := hq.cleaning_iff.mp hc
    have hle := hq.end_le
    exact hend (hq.cleaned_iff.mp (hdone (hq.member hb (by omega)))).1
  · intro hc
    obtain ⟨hend, h0⟩ := hq.finishing hc
    exact (hq.cleaned_iff.mp (hdone (hq.member (hq.end_begin hend) h0))).2.2 hc

/-- No clean-up has begun for the version of the next event. -/
theorem RunawayInv.not_started_next (h : RunawayInv cfg st) (p : P) :
    (st.currentVersion + 1, p) ∉ st.started := by
  intro hp
  have hle := h.started_le _ hp
  have hlt := h.latest_lt
  simp only at hle
  omega

theorem RunawayInv.not_cleaned_next (h : RunawayInv cfg st) (p : P) :
    (st.currentVersion + 1, p) ∉ st.cleaned :=
  fun hp => h.not_started_next p (h.cleaned_started _ hp)

theorem RunawayInv.pending_flagEvent (h : RunawayInv cfg st) (s : S) :
    pending st.cleaned (flagEvent cfg st s) = (flagEvent cfg st s).members := by
  rw [pending, List.filter_eq_self]
  intro p _
  exact decide_eq_true (h.not_cleaned_next p)

/-- A process when a session is flagged: it owes a clean-up exactly when it is a member. -/
theorem RunawayInv.flagProc (h : RunawayInv cfg st)
    (hnot : ∀ s, (st.session s).runawayStatus = .notRunaway) (s : S) (p : P) :
    ProcInv cfg (st.currentVersion + 2) (st.currentVersion + 1) (flagEvent cfg st s :: st.events)
      st.started st.cleaned p (st.proc p) := by
  have hlt := h.latest_lt
  have hq := h.procs p
  have hb := hq.begin_le
  have he := hq.end_le
  have ha := hq.act_le
  have hd := hq.deact_le
  have hset := h.no_cleanup hnot p
  refine ⟨by omega, by omega, by omega, by omega, fun hc => by omega, ?_, ?_, ?_, ?_,
    fun hc => by omega, ?_, ?_, hq.idle_pc, hq.known⟩
  · exact ⟨fun hc => absurd hc (h.not_started_next p), fun hc => by omega⟩
  · exact ⟨fun hc => absurd hc (h.not_cleaned_next p), fun hc => by omega⟩
  · exact ⟨fun hc => absurd hc hset.1, fun hc => by omega⟩
  · exact fun hc => absurd hc hset.2
  · intro hm _
    obtain ⟨-, -, hact⟩ := mem_flagEvent.mp hm
    refine ⟨by omega, Or.inl ⟨hact, ?_⟩⟩
    have hpc := mt hq.idle_pc (by rw [hact]; decide)
    cases hpc' : (st.proc p).pc <;> simp_all
  · intro hm hs
    refine Or.inr ⟨?_, Or.inl (by omega)⟩
    have hsess : cfg.sess p = s := hs _ rfl
    by_contra hact
    rw [Bool.not_eq_false] at hact
    have hknown : p ∈ cfg.procs := hq.known fun hc => by
      rw [hq.idle_pc (Or.inr (Or.inl hc))] at hact
      exact Bool.false_ne_true hact
    exact hm (mem_flagEvent.mpr ⟨hknown, hsess, hact⟩)

/-- **Flagging a session.** Its active processes are the members of the new event; all versions so
far are below that of the event. -/
theorem RunawayInv.flagSession (h : RunawayInv cfg st) {s : S} {r : RunawayStatus}
    (hnot : ∀ s, (st.session s).runawayStatus = .notRunaway)
    (hnone : ∀ p, (st.proc p).detector = .none) (hr : r ≠ .notRunaway) {n : Nat} (hn : n = 1)
    (hpos : 0 < (st.session s).activeProcessCount) :
    RunawayInv cfg { st with
      isRunawayDetector := n
      session := Function.update st.session s { st.session s with
        cleanupCountdown := (st.session s).activeProcessCount, runawayStatus := r }
      latestRunawayVersion := st.currentVersion + 1
      currentVersion := st.currentVersion + 2
      events := flagEvent cfg st s :: st.events } := by
  have hlt := h.latest_lt
  have hcount := h.count s
  refine { h with
    procs := h.flagProc hnot s, latest_lt := Nat.lt_succ_self _, none_iff := by simp, head := ?_
    tail := ?_, started_le := ?_, started_member := ?_, resets_le := ?_, members := ?_, count := ?_
    held := Or.inr (Or.inr ⟨hn, hnone, s, ?_, ?_⟩), unflagged := ?_, flagged := ?_, events := ?_ }
  · intro e he
    cases he
    rfl
  · intro e he
    show e.version < st.currentVersion + 1
    have := h.resets_le _ (h.events_over hnot he).1
    omega
  · intro x hx
    have := h.started_le x hx
    show x.1 ≤ st.currentVersion + 1
    omega
  · intro x hx
    obtain ⟨e, he, hv⟩ := h.started_member x hx
    exact ⟨e, List.mem_cons_of_mem _ he, hv⟩
  · intro v hv
    have := h.resets_le v hv
    show v ≤ st.currentVersion + 1
    omega
  · intro e he
    rcases List.mem_cons.mp he with rfl | he
    · exact ⟨cfg.nodup.filter _, fun p hp => (mem_flagEvent.mp hp).2.1⟩
    · exact h.members e he
  · intro s'
    refine Eq.trans ?_ (h.count s')
    show (Function.update st.session s _ s').activeProcessCount = _
    by_cases hs' : s' = s
    · rw [hs', Function.update_self]
    · rw [Function.update_of_ne hs']
  · show (Function.update st.session s _ s).runawayStatus ≠ _
    rw [Function.update_self]
    exact hr
  · intro s' hs'
    show (Function.update st.session s _ s').runawayStatus = _
    rw [Function.update_of_ne hs']
    exact hnot s'
  · intro s' hs'
    change (Function.update st.session s _ s').runawayStatus = _ at hs'
    show (Function.update st.session s _ s').cleanupCountdown = _
    by_cases he : s' = s
    · rw [he, Function.update_self] at hs'
      exact absurd hs' hr
    · rw [Function.update_of_ne he]
      exact h.unflagged s' (hnot s')
  · intro s' hs'
    change (Function.update st.session s _ s').runawayStatus ≠ _ at hs'
    have he : s' = s := by
      by_contra hne
      rw [Function.update_of_ne hne] at hs'
      exact hs' (hnot s')
    subst he
    refine ⟨flagEvent cfg st s', rfl, rfl, ?_, ?_, ?_⟩
    · intro hc
      have := h.resets_le _ hc
      simp only [flagEvent] at this
      omega
    · show (Function.update st.session s' _ s').cleanupCountdown =
        ((pending st.cleaned _).length : Int)
      rw [Function.update_self, h.pending_flagEvent]
      exact hcount
    · intro hnil
      change pending st.cleaned _ = [] at hnil
      rw [h.pending_flagEvent] at hnil
      have hlen : activeCount cfg st.proc s' = ((flagEvent cfg st s').members.length : Int) := rfl
      rw [hcount, hlen, hnil] at hpos
      exact absurd hpos (lt_irrefl (0 : Int))
  · intro e he
    rcases List.mem_cons.mp he with rfl | he
    · refine Or.inl ⟨rfl, ?_⟩
      show (Function.update st.session s _ s).runawayStatus ≠ _
      rw [Function.update_self]
      exact hr
    · exact Or.inr (h.events_over hnot he)

theorem RunawayInv.flag (h : RunawayInv cfg st) {s : S} {r : RunawayStatus}
    (hd : (st.proc p).detector = .chosen s r) : RunawayInv cfg (detectorFlag cfg st p s r) := by
  have hne : (st.proc p).detector ≠ .none := by
    rw [hd]
    simp
  obtain ⟨h₁, hothers, hnot⟩ := h.detecting hne
  rw [detectorFlag]
  by_cases hpos :
    0 < ((st.setProc p { st.proc p with detector := .none }).session s).activeProcessCount
  · rw [if_pos hpos]
    have hnone : ∀ p', ((st.setProc p { st.proc p with detector := .none }).proc p').detector =
        .none := by
      intro p'
      rw [setProc_detector]
      split_ifs with hp'
      · rfl
      · exact hothers p' hp'
    -- Without the detector the flag is nobody's for a moment: the session takes it over.
    have hheld : RunawayInv cfg { st.setProc p { st.proc p with detector := .none } with
        isRunawayDetector := 0 } := h.giveUp hne
    exact hheld.flagSession hnot hnone (h.chosen p s r hd) h₁ hpos
  · rw [if_neg hpos]
    exact h.giveUp hne

/-! ## Every run -/

/-- **One step keeps the invariant.** -/
theorem RunawayInv.step {st' : RunawayState P S} (h : RunawayInv cfg st) {a : RunawayAction P S}
    (hs : runawayStep cfg st a = some st') : RunawayInv cfg st' := by
  cases a with
  | start p =>
    simp only [runawayStep] at hs
    split_ifs at hs with hc
    cases hs
    exact h.start hc.1 hc.2
  | activateProcess p =>
    simp only [runawayStep] at hs
    split_ifs at hs with hc
    cases hs
    exact h.activateProcess hc.1 hc.2
  | deactivateProcess p =>
    simp only [runawayStep] at hs
    split_ifs at hs with hc
    cases hs
    exact h.deactivateProcess hc.1 hc.2
  | startCleanup p b =>
    simp only [runawayStep] at hs
    split_ifs at hs with hc
    cases hs
    exact h.startCleanup hc b
  | cleanupDoneForProcess p =>
    simp only [runawayStep] at hs
    split_ifs at hs with hc
    cases hs
    exact h.cleanupDoneForProcess hc
  | countDown p =>
    simp only [runawayStep] at hs
    split_ifs at hs with hc
    cases hs
    exact h.countDown hc
  | finalCheck p =>
    simp only [runawayStep] at hs
    split_ifs at hs with hc
    cases hs
    exact h.finalCheck hc
  | exit p =>
    simp only [runawayStep] at hs
    split_ifs at hs with hc
    cases hs
    exact h.exit hc.1 hc.2
  | tryDetect p =>
    simp only [runawayStep] at hs
    split_ifs at hs with hc hz
    · cases hs
      exact h.tryDetect hz
    · cases hs
      exact h
  | scan p seen =>
    simp only [runawayStep] at hs
    split_ifs at hs with hc
    cases hs
    exact h.scan hc seen
  | flag p =>
    simp only [runawayStep] at hs
    split at hs
    · cases hs
      exact h.flag (by assumption)
    · cases hs

theorem runawayInv_run {as : List (RunawayAction P S)}
    (hrun : run (runawayStep cfg) runawayInit as = some st) : RunawayInv cfg st :=
  run_invariant (fun _ _ _ h hs => h.step hs) (runawayInv_init cfg) hrun

/-- A session is flagged runaway. -/
def isRunaway (st : RunawayState P S) (s : S) : Prop := (st.session s).runawayStatus ≠ .notRunaway

/-- **The clean-up protocol.** In every state a run comes to, at most one session is flagged, and
the detector flag is set then. The countdown of the flagged session is the number of processes that
were active when it was flagged and are not done; when there are none left, one of them is about to
take the flag back. Nobody begins a clean-up twice for an event, nor without having been active
then. Once an event is not under way, everybody who was active has been counted down, exactly once,
and the flag was taken back exactly once. -/
theorem runaway_cleanup (cfg : RunawayConfig P S) {as : List (RunawayAction P S)}
    (hrun : run (runawayStep cfg) runawayInit as = some st) :
    (∀ s s', isRunaway st s → isRunaway st s' → s = s') ∧
    (∀ s, isRunaway st s → st.isRunawayDetector = 1 ∧
      ∃ e ∈ st.events.head?, e.session = s ∧ e.version = st.latestRunawayVersion ∧
        (st.session s).cleanupCountdown = ((pending st.cleaned e).length : Int) ∧
        (pending st.cleaned e = [] → ∃ p, (st.proc p).pc = .finished ∧ cfg.sess p = s)) ∧
    (∀ s, ¬ isRunaway st s → (st.session s).cleanupCountdown = cleanupCountdownBeforeRunaway) ∧
    st.started.Nodup ∧ st.cleaned.Nodup ∧ st.resets.Nodup ∧
    (∀ x ∈ st.started, ∃ e ∈ st.events, e.version = x.1 ∧ x.2 ∈ e.members) ∧
    (∀ x ∈ st.cleaned, x ∈ st.started) ∧
    ∀ e ∈ st.events, (e.version = st.latestRunawayVersion ∧ isRunaway st e.session ∧
        e.version ∉ st.resets) ∨
      (e.version ∈ st.resets ∧ ∀ p ∈ e.members, (e.version, p) ∈ st.cleaned) := by
  have h := runawayInv_run hrun
  refine ⟨?_, ?_, ?_, h.started_nodup, h.cleaned_nodup, h.resets_nodup, h.started_member,
    h.cleaned_started, ?_⟩
  · intro s s' hs hs'
    obtain ⟨e, he, hes, -⟩ := h.flagged s hs
    obtain ⟨e', he', hes', -⟩ := h.flagged s' hs'
    have hee : e = e' := Option.some.inj ((Option.mem_def.mp he).symm.trans (Option.mem_def.mp he'))
    exact hes.symm.trans (hee ▸ hes')
  · intro s hs
    obtain ⟨e, he, hes, -, hc, hlast⟩ := h.flagged s hs
    refine ⟨?_, e, he, hes, h.head e he, hc, hlast⟩
    rcases h.held with ⟨-, -, hnot⟩ | ⟨-, -, hnot⟩ | ⟨h₁, -, -⟩
    · exact absurd (hnot s) hs
    · exact absurd (hnot s) hs
    · exact h₁
  · intro s hs
    exact h.unflagged s (not_not.mp hs)
  · intro e he
    rcases h.events e he with ⟨hv, hs⟩ | hover
    · obtain ⟨e', he', -, hreset, -⟩ := h.flagged _ hs
      refine Or.inl ⟨hv, hs, ?_⟩
      rw [hv, ← h.head e' he']
      exact hreset
    · exact Or.inr hover

theorem nodup_threeProcesses : ([0, 1, 2] : List (Fin 3)).Nodup := by decide

/-- Two processes of one session and one of another. -/
def threeProcesses : RunawayConfig (Fin 3) Bool where
  procs := [0, 1, 2]
  nodup := nodup_threeProcesses
  sess := fun p => p == 2

/-- The other session flags the one of 0 and 1. Process 0 is cancelled, process 1 goes idle
meanwhile and ignores the event. -/
def flaggedRun : List (RunawayAction (Fin 3) Bool) :=
  [.start 0, .start 1, .start 2, .tryDetect 2, .scan 2 [(true, 1, 1), (false, 5, 2)], .flag 2,
    .startCleanup 0 true, .deactivateProcess 1, .startCleanup 1 false, .cleanupDoneForProcess 0,
    .countDown 1, .countDown 0, .finalCheck 1, .finalCheck 0]

theorem runaway_cleanup_flaggedRun :
    ∃ st, run (runawayStep threeProcesses) runawayInit flaggedRun = some st ∧
      st.resets = [2] ∧ st.cleaned = [(2, 0), (2, 1)] ∧ st.cleaned.Nodup ∧ st.resets.Nodup := by
  obtain ⟨st, hst⟩ : ∃ st, run (runawayStep threeProcesses) runawayInit flaggedRun = some st :=
    Option.isSome_iff_exists.mp (by decide +kernel)
  have hshape : (run (runawayStep threeProcesses) runawayInit flaggedRun).map
      (fun st => (st.resets, st.cleaned)) = some ([2], [(2, 0), (2, 1)]) := by decide +kernel
  rw [hst, Option.map_some, Option.some.injEq, Prod.mk.injEq] at hshape
  obtain ⟨-, -, -, -, hcleaned, hresets, -⟩ := runaway_cleanup threeProcesses hst
  exact ⟨st, hst, hshape.1, hshape.2, hcleaned, hresets⟩

end Hdb.Mem
