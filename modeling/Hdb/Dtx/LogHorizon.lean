import Hdb.Dtx.Snapshot

/-!
# The horizon of the distributed log

The backends of a segment advance the shared `oldestXmin` and truncate the log behind it, while
others look local ids up in the log. The truncate lock keeps a scan and a truncation apart, but the
shared lock lets two scans run at the same time: both start at the same horizon, and the last one to
write wins. And a look-up reads the horizon before it takes the lock.

The ids of the model count on past `2 ^ 32`, so that "older" is `<`; the code has their low 32 bits
(`toXid`), and every test of the code is made on those.

Main results: `distributedLog_horizon`, for the runs in which no scan writes behind the horizon and
no look-up reads behind it, and `horizon_moves_back`, a run in which both go wrong.
-/

namespace Hdb.Dtx

/-! ## Ids and pages -/

/-- The id the code has for an id of the model. -/
def toXid (x : Nat) : Nat := x % 2 ^ 32

/-- `TransactionIdAdvance`: the next id, past the special ones. -/
def transactionIdAdvance (x : Nat) : Nat :=
  if toXid (x + 1) < firstNormalTransactionId then
    x + 1 + (firstNormalTransactionId - toXid (x + 1))
  else x + 1

def transactionIdFollowsOrEquals (id1 id2 : Nat) : Bool :=
  if !transactionIdIsNormal id1 || !transactionIdIsNormal id2 then id2 ≤ id1
  else (id1 + 2 ^ 32 - id2) % 2 ^ 32 < 2 ^ 31

/-- `BLCKSZ` of 32768, and 8 bytes per entry. -/
abbrev entriesPerPage : Nat := 4096

abbrev slruPagesPerSegment : Nat := 32

def transactionIdToPage (localXid : Nat) : Nat := localXid / entriesPerPage

def transactionIdToEntry (localXid : Nat) : Nat := localXid % entriesPerPage

def transactionIdToSegment (localXid : Nat) : Nat :=
  localXid / (entriesPerPage * slruPagesPerSegment)

/-- `DistributedLog_PagePrecedes`. -/
def pagePrecedes (page1 page2 : Nat) : Bool :=
  transactionIdPrecedes ((page1 * entriesPerPage + firstNormalTransactionId) % 2 ^ 32)
    ((page2 * entriesPerPage + firstNormalTransactionId) % 2 ^ 32)

/-- The pages left by `SimpleLruTruncate`: the segments before the one of the cutoff page are
deleted, unless the cutoff is past the latest page. -/
def simpleLruTruncate (latestPageNumber cutoffPage : Nat) (pages : Nat → Bool) : Nat → Bool :=
  let cutoffPage := cutoffPage - cutoffPage % slruPagesPerSegment
  if pagePrecedes latestPageNumber cutoffPage then pages
  else fun page => pages page && !pagePrecedes (page - page % slruPagesPerSegment) cutoffPage

/-! ## The steps -/

/-- The settings that limit how far ids are assigned, in the ranges they can be set to. -/
structure XidLimits where
  xidStopLimit : Nat
  autovacuumFreezeMaxAge : Nat
  stop_range : 10000000 ≤ xidStopLimit ∧ xidStopLimit < 2 ^ 31
  age_range : 100000000 ≤ autovacuumFreezeMaxAge ∧ autovacuumFreezeMaxAge ≤ 2000000000

/-- `SetTransactionIdLimit`: from where on autovacuum is forced. -/
def xidVacLimit (limits : XidLimits) (oldestXid : Nat) : Nat :=
  let limit := (oldestXid + limits.autovacuumFreezeMaxAge) % 2 ^ 32
  if limit < firstNormalTransactionId then limit + firstNormalTransactionId else limit

def xidWrapLimit (oldestXid : Nat) : Nat :=
  let limit := (oldestXid + (2 ^ 31 - 1)) % 2 ^ 32
  if limit < firstNormalTransactionId then limit + firstNormalTransactionId else limit

/-- `SetTransactionIdLimit`: from where on no ids are assigned. -/
def xidStopLimit (limits : XidLimits) (oldestXid : Nat) : Nat :=
  let limit := (xidWrapLimit oldestXid + 2 ^ 32 - limits.xidStopLimit) % 2 ^ 32
  if limit < firstNormalTransactionId then (limit + 2 ^ 32 - firstNormalTransactionId) % 2 ^ 32
  else limit

/-- The arguments and locals of `DistributedLog_AdvanceOldestXmin`, and the `xmin` its backend has
published. -/
structure Advance where
  oldestLocalXmin : Nat
  distribTransactionTimeStamp : Nat
  xminAllDistributedSnapshots : Nat
  xmin : Nat
  oldOldestXmin : Nat
  oldestXmin : Nat
  deriving DecidableEq, Repr

/-- Where a backend is. While `scanning` and `stopped` it holds the truncate lock shared. -/
inductive LogPc
  | idle
  | scanning (r : Advance)
  | stopped (r : Advance)
  | truncating (r : Advance)
  | checking (localXid : Nat)
  deriving DecidableEq, Repr

structure LogState (B : Type) where
  /-- `DistributedLogShared->oldestXmin`. -/
  oldestXmin : Nat
  nextXid : Nat
  /-- The oldest `datfrozenxid`. -/
  oldestXid : Nat
  pages : Nat → Bool
  latestPageNumber : Nat
  /-- Time stamp and distributed id for a local id. -/
  entry : Nat → Nat × Nat
  pc : B → LogPc
  /-- A page was read that is not there. -/
  missedPage : Bool

inductive LogAction (B : Type)
  | getNewTransactionId
  | setTransactionIdLimit (oldestXid : Nat)
  | setCommitted (localXid distribTimeStamp distribXid : Nat)
  | advanceOldestXmin (b : B)
    (oldestLocalXmin distribTransactionTimeStamp xminAllDistributedSnapshots xmin : Nat)
  | scanEntry (b : B)
  | writeOldestXmin (b : B)
  | truncate (b : B)
  | committedCheck (b : B) (localXid : Nat)
  | readEntry (b : B)
  deriving DecidableEq, Repr

variable {B : Type} [DecidableEq B]

def LogState.setPc (s : LogState B) (b : B) (pc : LogPc) : LogState B :=
  { s with pc := Function.update s.pc b pc }

/-- The id is the first one on its page (`DistributedLog_Extend`). -/
def firstOnPage (xid : Nat) : Bool :=
  transactionIdToEntry xid == 0 || xid == firstNormalTransactionId

/-- `GetNewTransactionId` refuses an id past both limits; the first id of a page brings a page of
zeros. -/
def getNewTransactionId (limits : XidLimits) (s : LogState B) : Option (LogState B) :=
  let xid := toXid s.nextXid
  if transactionIdFollowsOrEquals xid (xidVacLimit limits (toXid s.oldestXid)) &&
      transactionIdFollowsOrEquals xid (xidStopLimit limits (toXid s.oldestXid)) then none
  else
    let s := { s with nextXid := transactionIdAdvance s.nextXid }
    if firstOnPage xid then
      let page := transactionIdToPage xid
      some { s with
        pages := Function.update s.pages page true
        entry := fun x => if transactionIdToPage x = page then (0, 0) else s.entry x
        latestPageNumber := page }
    else some s

/-- What a backend holds back: the horizon of freezing does not pass its `xmin`. -/
def holdsBack (x : Nat) : LogPc → Bool
  | .idle | .checking _ => true
  | .scanning r | .stopped r | .truncating r => x ≤ r.xmin

/-- Vacuum has frozen everything before `oldestXid`. It freezes nothing a distributed snapshot or a
running backend may see. -/
def setTransactionIdLimit (procs : List B) (s : LogState B) (oldestXid : Nat) :
    Option (LogState B) :=
  if transactionIdIsNormal (toXid oldestXid) ∧ s.oldestXid ≤ oldestXid ∧ oldestXid ≤ s.oldestXmin ∧
      procs.all fun b => holdsBack oldestXid (s.pc b) then
    some { s with oldestXid := oldestXid }
  else none

def setCommitted (s : LogState B) (localXid distribTimeStamp distribXid : Nat) :
    Option (LogState B) :=
  if s.pages (transactionIdToPage localXid) then
    some { s with entry := Function.update s.entry localXid (distribTimeStamp, distribXid) }
  else none

/-- Take the truncate lock shared and read the horizon. The caller has computed
`oldestLocalXmin` and published its own `xmin` from the ids in use. -/
def advanceOldestXmin (s : LogState B) (b : B)
    (oldestLocalXmin distribTransactionTimeStamp xminAllDistributedSnapshots xmin : Nat) :
    Option (LogState B) :=
  if s.pc b = .idle ∧ transactionIdIsNormal (toXid oldestLocalXmin) ∧
      s.oldestXid ≤ oldestLocalXmin ∧ oldestLocalXmin ≤ xmin ∧ xmin ≤ s.nextXid then
    some (s.setPc b (.scanning ⟨oldestLocalXmin, distribTransactionTimeStamp,
      xminAllDistributedSnapshots, xmin, s.oldestXmin, s.oldestXmin⟩))
  else none

/-- One turn of the loop. A page that is not there is an error, and the lock is given up. -/
def scanEntry (s : LogState B) (b : B) : Option (LogState B) :=
  match s.pc b with
  | .scanning r =>
    let xid := toXid r.oldestXmin
    if transactionIdPrecedes xid (toXid r.oldestLocalXmin) then
      if s.pages (transactionIdToPage xid) then
        let e := s.entry xid
        if e.1 = r.distribTransactionTimeStamp ∧
            transactionIdPrecedes e.2 r.xminAllDistributedSnapshots = false then
          some (s.setPc b (.stopped r))
        else
          some (s.setPc b (.scanning { r with oldestXmin := transactionIdAdvance r.oldestXmin }))
      else some { s.setPc b .idle with missedPage := true }
    else some (s.setPc b (.stopped r))
  | _ => none

/-- Write the horizon and give up the lock. -/
def writeOldestXmin (s : LogState B) (b : B) : Option (LogState B) :=
  match s.pc b with
  | .stopped r =>
    let s := { s with oldestXmin := r.oldestXmin }
    if transactionIdToSegment (toXid r.oldOldestXmin) < transactionIdToSegment (toXid r.oldestXmin)
    then some (s.setPc b (.truncating r))
    else some (s.setPc b .idle)
  | _ => none

/-- The backend holds the truncate lock. -/
def holdsTruncateLock : LogPc → Bool
  | .scanning _ | .stopped _ => true
  | _ => false

/-- `DistributedLog_Truncate`, under the exclusive lock. -/
def truncate (procs : List B) (s : LogState B) (b : B) : Option (LogState B) :=
  match s.pc b with
  | .truncating r =>
    if procs.any fun b => holdsTruncateLock (s.pc b) then none
    else some { s.setPc b .idle with
      pages := simpleLruTruncate s.latestPageNumber (transactionIdToPage (toXid r.oldestXmin))
        s.pages }
  | _ => none

/-- `DistributedLog_CommittedCheck` up to its look at the horizon. The id is that of a tuple, which
is not frozen. -/
def committedCheck (s : LogState B) (b : B) (localXid : Nat) : Option (LogState B) :=
  if s.pc b = .idle ∧ transactionIdIsNormal (toXid localXid) ∧ s.oldestXid ≤ localXid ∧
      localXid < s.nextXid then
    if transactionIdPrecedes (toXid localXid) (toXid s.oldestXmin) then some s
    else some (s.setPc b (.checking localXid))
  else none

/-- The rest of `DistributedLog_CommittedCheck`, under the shared lock. -/
def readEntry (s : LogState B) (b : B) : Option (LogState B) :=
  match s.pc b with
  | .checking localXid =>
    if s.pages (transactionIdToPage (toXid localXid)) then some (s.setPc b .idle)
    else some { s.setPc b .idle with missedPage := true }
  | _ => none

/-- One atomic step of a segment. -/
def logStep (limits : XidLimits) (procs : List B) (s : LogState B) :
    LogAction B → Option (LogState B)
  | .getNewTransactionId => getNewTransactionId limits s
  | .setTransactionIdLimit oldestXid => setTransactionIdLimit procs s oldestXid
  | .setCommitted localXid distribTimeStamp distribXid =>
    setCommitted s localXid distribTimeStamp distribXid
  | .advanceOldestXmin b oldestLocalXmin distribTransactionTimeStamp
      xminAllDistributedSnapshots xmin =>
    if b ∈ procs then advanceOldestXmin s b oldestLocalXmin distribTransactionTimeStamp
      xminAllDistributedSnapshots xmin
    else none
  | .scanEntry b => scanEntry s b
  | .writeOldestXmin b => writeOldestXmin s b
  | .truncate b => truncate procs s b
  | .committedCheck b localXid => if b ∈ procs then committedCheck s b localXid else none
  | .readEntry b => readEntry s b

/-! ## Arithmetic of ids -/

theorem toXid_normal_iff (x : Nat) : transactionIdIsNormal (toXid x) = true ↔ 3 ≤ x % 2 ^ 32 := by
  rw [transactionIdIsNormal, decide_eq_true_eq, toXid]

/-- Within half the id space the test of the code is the order of the ids. -/
theorem precedes_toXid {a b : Nat} (ha : 3 ≤ a % 2 ^ 32) (hb : 3 ≤ b % 2 ^ 32)
    (h₁ : a < b + 2 ^ 31) (h₂ : b < a + 2 ^ 31) :
    transactionIdPrecedes (toXid a) (toXid b) = true ↔ a < b := by
  have hna := (toXid_normal_iff a).mpr ha
  have hnb := (toXid_normal_iff b).mpr hb
  rw [transactionIdPrecedes, hna, hnb, if_neg (by decide), decide_eq_true_eq, toXid, toXid]
  omega

theorem followsOrEquals_toXid {a b : Nat} (ha : 3 ≤ a % 2 ^ 32) (hb : 3 ≤ b % 2 ^ 32) (h : b ≤ a)
    (h₁ : a < b + 2 ^ 31) : transactionIdFollowsOrEquals (toXid a) (toXid b) = true := by
  have hna := (toXid_normal_iff a).mpr ha
  have hnb := (toXid_normal_iff b).mpr hb
  rw [transactionIdFollowsOrEquals, hna, hnb, if_neg (by decide), decide_eq_true_eq, toXid, toXid]
  omega

/-- The next id is the next number, unless that is a special one. -/
theorem advance_cases (x : Nat) :
    (3 ≤ (x + 1) % 2 ^ 32 ∧ transactionIdAdvance x = x + 1) ∨
      ((x + 1) % 2 ^ 32 < 3 ∧ transactionIdAdvance x = x + 1 + (3 - (x + 1) % 2 ^ 32)) := by
  by_cases h : toXid (x + 1) < firstNormalTransactionId
  · exact Or.inr ⟨h, if_pos h⟩
  · exact Or.inl ⟨Nat.not_lt.mp h, if_neg h⟩

theorem advance_normal (x : Nat) : 3 ≤ transactionIdAdvance x % 2 ^ 32 := by
  rcases advance_cases x with ⟨h, he⟩ | ⟨h, he⟩ <;> rw [he] <;> omega

theorem lt_advance (x : Nat) : x < transactionIdAdvance x := by
  rcases advance_cases x with ⟨h, he⟩ | ⟨h, he⟩ <;> rw [he] <;> omega

/-- Only special ids are skipped. -/
theorem advance_le_of_lt {x y : Nat} (h : x < y) (hy : 3 ≤ y % 2 ^ 32) :
    transactionIdAdvance x ≤ y := by
  rcases advance_cases x with ⟨h, he⟩ | ⟨h, he⟩ <;> rw [he] <;> omega

/-- How far ids can be assigned from an oldest one: within half the id space, with room left. -/
abbrev xidWindow : Nat := 2 ^ 31 - 9999990

/-- The vacuum limit is an id at most two thousand million past the oldest one. -/
theorem xidVacLimit_spec (limits : XidLimits) (x : Nat) :
    ∃ l, xidVacLimit limits (toXid x) = toXid l ∧ 3 ≤ l % 2 ^ 32 ∧ x ≤ l ∧ l ≤ x + 2000000003 := by
  obtain ⟨h₁, h₂⟩ := limits.age_range
  by_cases h : (toXid x + limits.autovacuumFreezeMaxAge) % 2 ^ 32 < 3
  · refine ⟨x + limits.autovacuumFreezeMaxAge + 3, ?_, ?_, by omega, by omega⟩
    · have he : xidVacLimit limits (toXid x) =
          (toXid x + limits.autovacuumFreezeMaxAge) % 2 ^ 32 + 3 := if_pos h
      rw [he]
      simp only [toXid] at h ⊢
      omega
    · simp only [toXid] at h
      omega
  · refine ⟨x + limits.autovacuumFreezeMaxAge, ?_, ?_, by omega, by omega⟩
    · have he : xidVacLimit limits (toXid x) =
          (toXid x + limits.autovacuumFreezeMaxAge) % 2 ^ 32 := if_neg h
      rw [he]
      simp only [toXid] at h ⊢
      omega
    · simp only [toXid] at h
      omega

theorem xidWrapLimit_spec (x : Nat) :
    ∃ l, xidWrapLimit (toXid x) = toXid l ∧ 3 ≤ l % 2 ^ 32 ∧
      x + 2147483647 ≤ l ∧ l ≤ x + 2147483650 := by
  by_cases h : (toXid x + (2 ^ 31 - 1)) % 2 ^ 32 < 3
  · refine ⟨x + 2147483650, ?_, ?_, by omega, by omega⟩
    · rw [xidWrapLimit]
      rw [if_pos h, firstNormalTransactionId]
      simp only [toXid] at h ⊢
      omega
    · simp only [toXid] at h
      omega
  · refine ⟨x + 2147483647, ?_, ?_, by omega, by omega⟩
    · rw [xidWrapLimit]
      rw [if_neg h]
      simp only [toXid] at h ⊢
      omega
    · simp only [toXid] at h
      omega

/-- The stop limit is an id at most half the id space, less ten million, past the oldest one. -/
theorem xidStopLimit_spec (limits : XidLimits) {x : Nat} (hx : 3 ≤ x) :
    ∃ l, xidStopLimit limits (toXid x) = toXid l ∧ 3 ≤ l % 2 ^ 32 ∧ x ≤ l + 3 ∧
      l ≤ x + 2137483650 := by
  obtain ⟨h₁, h₂⟩ := limits.stop_range
  obtain ⟨w, hw, -, hw₁, hw₂⟩ := xidWrapLimit_spec x
  rw [xidStopLimit, hw]
  by_cases h : (toXid w + 2 ^ 32 - limits.xidStopLimit) % 2 ^ 32 < firstNormalTransactionId
  · rw [if_pos h, firstNormalTransactionId]
    simp only [toXid, firstNormalTransactionId] at h ⊢
    exact ⟨w - limits.xidStopLimit - 3, by omega, by omega, by omega, by omega⟩
  · rw [if_neg h]
    simp only [toXid, firstNormalTransactionId] at h ⊢
    exact ⟨w - limits.xidStopLimit, by omega, by omega, by omega, by omega⟩

/-! ## Pages in use -/

/-- The pages of all ids from `x` on are there, up to the newest page. -/
def Covered (pages : Nat → Bool) (nextXid x : Nat) : Prop :=
  ∀ y, transactionIdIsNormal (toXid y) = true → x ≤ y → y ≤ nextXid →
    (y = nextXid → firstOnPage (toXid y) = false) → pages (transactionIdToPage (toXid y)) = true

theorem Covered.mono {pages : Nat → Bool} {nextXid x x' : Nat} (h : Covered pages nextXid x)
    (hx : x ≤ x') : Covered pages nextXid x' :=
  fun y hn hy hy' hf => h y hn (hx.trans hy) hy' hf

theorem firstOnPage_eq_false {x : Nat} (h : firstOnPage (toXid x) = false) :
    x % 4096 ≠ 0 ∧ x % 2 ^ 32 ≠ 3 := by
  simp only [firstOnPage, Bool.or_eq_false_iff, beq_eq_false_iff_ne, transactionIdToEntry,
    toXid, entriesPerPage, firstNormalTransactionId] at h
  omega

theorem firstOnPage_eq_true {x : Nat} (h : firstOnPage (toXid x) = true) :
    x % 4096 = 0 ∨ x % 2 ^ 32 = 3 := by
  simp only [firstOnPage, Bool.or_eq_true, beq_iff_eq, transactionIdToEntry, toXid,
    entriesPerPage, firstNormalTransactionId] at h
  omega

theorem toPage_toXid (x : Nat) : transactionIdToPage (toXid x) = x / 4096 % 2 ^ 20 := by
  simp only [transactionIdToPage, toXid, entriesPerPage]
  omega

/-- An id that is not the first on its page is on the page of the id before. -/
theorem advance_same_page {x : Nat} (h : firstOnPage (toXid (transactionIdAdvance x)) = false) :
    transactionIdAdvance x = x + 1 ∧ transactionIdAdvance x / 4096 = x / 4096 := by
  obtain ⟨h₁, h₂⟩ := firstOnPage_eq_false h
  rcases advance_cases x with ⟨hn, he⟩ | ⟨hn, he⟩ <;> rw [he] at h₁ h₂ ⊢ <;> omega

/-- Assigning an id keeps the pages in use covered: its own page is there already, or is added. -/
theorem Covered.advance {pages pages' : Nat → Bool} {nextXid x : Nat}
    (h : Covered pages nextXid x) (hx : x ≤ nextXid) (hnext : 3 ≤ nextXid % 2 ^ 32)
    (hsub : ∀ page, pages page = true → pages' page = true)
    (hfirst : firstOnPage (toXid nextXid) = true →
      pages' (transactionIdToPage (toXid nextXid)) = true) :
    Covered pages' (transactionIdAdvance nextXid) x := by
  have hown : pages' (transactionIdToPage (toXid nextXid)) = true := by
    cases hf : firstOnPage (toXid nextXid) with
    | true => exact hfirst hf
    | false =>
      exact hsub _ (h nextXid ((toXid_normal_iff _).mpr hnext) hx le_rfl fun _ => hf)
  intro y hn hy hy' hf
  by_cases hlt : y < nextXid
  · exact hsub _ (h y hn hy hlt.le fun he => absurd he hlt.ne)
  by_cases heq : y = nextXid
  · rw [heq]
    exact hown
  · -- Nothing lies between `nextXid` and the id after it but special ids.
    have hle : transactionIdAdvance nextXid ≤ y :=
      advance_le_of_lt (by omega) ((toXid_normal_iff y).mp hn)
    have hyeq : y = transactionIdAdvance nextXid := le_antisymm hy' hle
    obtain ⟨-, hpage⟩ := advance_same_page (hyeq ▸ hf hyeq)
    rw [toPage_toXid, hyeq, hpage, ← toPage_toXid]
    exact hown

/-- The order of pages at the same distance from a multiple of the id space. -/
theorem pagePrecedes_iff (a b : Nat) :
    pagePrecedes (a % 2 ^ 20) (b % 2 ^ 20) = true ↔
      2 ^ 19 ≤ (a % 2 ^ 20 + 2 ^ 20 - b % 2 ^ 20) % 2 ^ 20 := by
  have hna : transactionIdIsNormal ((a % 2 ^ 20 * 4096 + 3) % 2 ^ 32) = true := by
    rw [transactionIdIsNormal, decide_eq_true_eq]
    show 3 ≤ _
    omega
  have hnb : transactionIdIsNormal ((b % 2 ^ 20 * 4096 + 3) % 2 ^ 32) = true := by
    rw [transactionIdIsNormal, decide_eq_true_eq]
    show 3 ≤ _
    omega
  show transactionIdPrecedes ((a % 2 ^ 20 * 4096 + 3) % 2 ^ 32) ((b % 2 ^ 20 * 4096 + 3) % 2 ^ 32) =
    true ↔ _
  rw [transactionIdPrecedes, hna, hnb, if_neg (by decide), decide_eq_true_eq]
  omega

/-- A truncation at `c` keeps the pages of the ids from `c` on. -/
theorem Covered.truncate {pages : Nat → Bool} {nextXid x c lp : Nat}
    (h : Covered pages nextXid x) (hc : c ≤ x) (hspan : nextXid ≤ c + (2 ^ 32 - 262144))
    (hlp : lp ≤ nextXid / 4096) (hlp₁ : nextXid / 4096 ≤ lp + 1)
    (hlp₂ : firstOnPage (toXid nextXid) = false → lp = nextXid / 4096) :
    Covered (simpleLruTruncate (lp % 2 ^ 20) (transactionIdToPage (toXid c)) pages) nextXid x := by
  have hcut : transactionIdToPage (toXid c) - transactionIdToPage (toXid c) % 32 =
      (c / 131072 * 32) % 2 ^ 20 := by
    rw [toPage_toXid]
    omega
  rw [simpleLruTruncate, hcut]
  by_cases hw : pagePrecedes (lp % 2 ^ 20) (c / 131072 * 32 % 2 ^ 20) = true
  · rw [if_pos hw]
    exact h
  rw [if_neg hw]
  rw [pagePrecedes_iff] at hw
  intro y hn hy hy' hf
  have hylp : y / 4096 ≤ lp := by
    have hny := (toXid_normal_iff y).mp hn
    cases hfn : firstOnPage (toXid nextXid) with
    | false =>
      rw [hlp₂ hfn]
      omega
    | true =>
      have hne : y ≠ nextXid := by
        intro he
        rw [← he, hf he] at hfn
        exact Bool.false_ne_true hfn
      have := firstOnPage_eq_true hfn
      omega
  have hseg : transactionIdToPage (toXid y) - transactionIdToPage (toXid y) % 32 =
      (y / 131072 * 32) % 2 ^ 20 := by
    rw [toPage_toXid]
    omega
  have hkeep : pagePrecedes (y / 131072 * 32 % 2 ^ 20) (c / 131072 * 32 % 2 ^ 20) = false := by
    rw [← Bool.not_eq_true, pagePrecedes_iff]
    omega
  show (pages _ && !pagePrecedes (transactionIdToPage (toXid y) -
    transactionIdToPage (toXid y) % 32) _) = true
  rw [hseg, hkeep, h y hn hy hy' hf]
  rfl

/-! ## The invariant -/

/-- What holds of the locals of `DistributedLog_AdvanceOldestXmin` at any time. -/
structure AdvanceOk (s : LogState B) (r : Advance) : Prop where
  cur_normal : 3 ≤ r.oldestXmin % 2 ^ 32
  local_normal : 3 ≤ r.oldestLocalXmin % 2 ^ 32
  old_le : r.oldOldestXmin ≤ r.oldestXmin
  cur_le : r.oldestXmin ≤ max r.oldOldestXmin r.oldestLocalXmin
  old_le_next : r.oldOldestXmin ≤ s.nextXid
  local_le_next : r.oldestLocalXmin ≤ s.nextXid
  local_near : r.oldestLocalXmin < r.oldOldestXmin + 2 ^ 31
  old_near : r.oldOldestXmin < r.oldestLocalXmin + 2 ^ 31
  oldestXid_le : s.oldestXid ≤ r.xmin
  xmin_near : r.xmin ≤ r.oldOldestXmin + xidWindow

/-- A scan has the pages it may read, and a truncation stays behind the horizon. -/
def PcOk (s : LogState B) : LogPc → Prop
  | .idle => True
  | .scanning r | .stopped r => AdvanceOk s r ∧ Covered s.pages s.nextXid r.oldOldestXmin
  | .truncating r => AdvanceOk s r ∧ r.oldestXmin ≤ s.oldestXmin
  | .checking localXid => transactionIdIsNormal (toXid localXid) = true ∧ localXid < s.nextXid

structure LogInv (procs : List B) (s : LogState B) : Prop where
  oldestXid_pos : 3 ≤ s.oldestXid
  xmin_normal : 3 ≤ s.oldestXmin % 2 ^ 32
  next_normal : 3 ≤ s.nextXid % 2 ^ 32
  oldestXid_le : s.oldestXid ≤ s.oldestXmin
  xmin_le_next : s.oldestXmin ≤ s.nextXid
  next_le : s.nextXid ≤ s.oldestXid + xidWindow
  latest : ∃ lp, s.latestPageNumber = lp % 2 ^ 20 ∧ lp ≤ s.nextXid / 4096 ∧
    s.nextXid / 4096 ≤ lp + 1 ∧ (firstOnPage (toXid s.nextXid) = false → lp = s.nextXid / 4096)
  covered : Covered s.pages s.nextXid s.oldestXmin
  pcs : ∀ b, PcOk s (s.pc b)
  members : ∀ b, s.pc b ≠ .idle → b ∈ procs
  missed : s.missedPage = false

/-- The state after `DistributedLog_Startup`: no calls yet, and the log is there from the horizon
on. -/
structure Started (s : LogState B) : Prop where
  oldestXid_normal : transactionIdIsNormal (toXid s.oldestXid) = true
  xmin_normal : transactionIdIsNormal (toXid s.oldestXmin) = true
  next_normal : transactionIdIsNormal (toXid s.nextXid) = true
  oldestXid_le : s.oldestXid ≤ s.oldestXmin
  xmin_le_next : s.oldestXmin ≤ s.nextXid
  next_le : s.nextXid ≤ s.oldestXid + xidWindow
  latest : s.latestPageNumber = transactionIdToPage (toXid s.nextXid)
  covered : Covered s.pages s.nextXid s.oldestXmin
  idle : ∀ b, s.pc b = .idle
  missed : s.missedPage = false

omit [DecidableEq B] in
theorem Started.inv {procs : List B} {s : LogState B} (h : Started s) : LogInv procs s where
  oldestXid_pos := by
    have := (toXid_normal_iff _).mp h.oldestXid_normal
    omega
  xmin_normal := (toXid_normal_iff _).mp h.xmin_normal
  next_normal := (toXid_normal_iff _).mp h.next_normal
  oldestXid_le := h.oldestXid_le
  xmin_le_next := h.xmin_le_next
  next_le := h.next_le
  latest := ⟨s.nextXid / 4096, h.latest.trans (toPage_toXid _), le_rfl, Nat.le_succ _, fun _ => rfl⟩
  covered := h.covered
  pcs := by
    intro b
    rw [h.idle b]
    trivial
  members := fun b hb => absurd (h.idle b) hb
  missed := h.missed

/-- A scan does not write behind the horizon, and a look-up does not read behind it. -/
def keepsHorizon (s : LogState B) : LogAction B → Bool
  | .writeOldestXmin b =>
    match s.pc b with
    | .stopped r => s.oldestXmin ≤ r.oldestXmin
    | _ => true
  | .readEntry b =>
    match s.pc b with
    | .checking localXid => s.oldestXmin ≤ localXid
    | _ => true
  | _ => true

/-! ## Preservation -/

section Preservation

variable {limits : XidLimits} {procs : List B} {s s' : LogState B} {b : B}

omit [DecidableEq B] in
/-- What the locals of a backend promise is kept when the ids in use only grow. -/
theorem AdvanceOk.mono {r : Advance} (h : AdvanceOk s r) (hnext : s.nextXid ≤ s'.nextXid)
    (hx : s'.oldestXid ≤ r.xmin) : AdvanceOk s' r :=
  { h with
    old_le_next := h.old_le_next.trans hnext
    local_le_next := h.local_le_next.trans hnext
    oldestXid_le := hx }

omit [DecidableEq B] in
theorem PcOk.mono {pc : LogPc} (h : PcOk s pc) (hnext : s.nextXid ≤ s'.nextXid)
    (hx : holdsBack s'.oldestXid pc = true) (hmin : s.oldestXmin ≤ s'.oldestXmin)
    (hcov : ∀ x ≤ s.nextXid, holdsTruncateLock pc = true → Covered s.pages s.nextXid x →
      Covered s'.pages s'.nextXid x) : PcOk s' pc := by
  cases pc with
  | idle => trivial
  | scanning r =>
    exact ⟨h.1.mono hnext (of_decide_eq_true hx), hcov _ h.1.old_le_next rfl h.2⟩
  | stopped r =>
    exact ⟨h.1.mono hnext (of_decide_eq_true hx), hcov _ h.1.old_le_next rfl h.2⟩
  | truncating r => exact ⟨h.1.mono hnext (of_decide_eq_true hx), h.2.trans hmin⟩
  | checking x => exact ⟨h.1, h.2.trans_le hnext⟩

omit [DecidableEq B] in
theorem PcOk.holdsBack {pc : LogPc} (h : PcOk s pc) : holdsBack s.oldestXid pc = true := by
  cases pc with
  | idle | checking => rfl
  | scanning r | stopped r | truncating r => exact decide_eq_true h.1.oldestXid_le

/-- A step of one backend that leaves the log alone. -/
theorem LogInv.setPc (h : LogInv procs s) {pc : LogPc} (hpc : PcOk s pc)
    (hb : pc ≠ .idle → b ∈ procs) : LogInv procs (s.setPc b pc) where
  oldestXid_pos := h.oldestXid_pos
  xmin_normal := h.xmin_normal
  next_normal := h.next_normal
  oldestXid_le := h.oldestXid_le
  xmin_le_next := h.xmin_le_next
  next_le := h.next_le
  latest := h.latest
  covered := h.covered
  pcs := by
    intro b'
    have hok : PcOk s ((s.setPc b pc).pc b') := by
      simp only [LogState.setPc]
      by_cases hb' : b' = b
      · rw [hb', Function.update_self]
        exact hpc
      · rw [Function.update_of_ne hb']
        exact h.pcs b'
    exact hok.mono le_rfl hok.holdsBack le_rfl fun _ _ _ hc => hc
  members := by
    intro b' hne
    simp only [LogState.setPc] at hne
    by_cases hb' : b' = b
    · rw [hb', Function.update_self] at hne
      exact hb' ▸ hb hne
    · rw [Function.update_of_ne hb'] at hne
      exact h.members b' hne
  missed := h.missed

omit [DecidableEq B] in
/-- No id is assigned past the limits. -/
theorem past_limits (h : LogInv procs s) (hge : s.oldestXid + 2137483650 ≤ s.nextXid) :
    (transactionIdFollowsOrEquals (toXid s.nextXid) (xidVacLimit limits (toXid s.oldestXid)) &&
      transactionIdFollowsOrEquals (toXid s.nextXid) (xidStopLimit limits (toXid s.oldestXid))) =
        true := by
  obtain ⟨v, hv, hvn, hv₁, hv₂⟩ := xidVacLimit_spec limits s.oldestXid
  obtain ⟨l, hl, hln, hl₁, hl₂⟩ := xidStopLimit_spec limits h.oldestXid_pos
  have hwin := h.next_le
  simp only [xidWindow] at hwin
  rw [hv, hl, followsOrEquals_toXid h.next_normal hvn (by omega) (by omega),
    followsOrEquals_toXid h.next_normal hln (by omega) (by omega)]
  rfl

omit [DecidableEq B] in
/-- An id is assigned within the limits. -/
theorem getNewTransactionId_eq (h : LogInv procs s) (hs : getNewTransactionId limits s = some s') :
    s.nextXid < s.oldestXid + 2137483650 ∧
      ((firstOnPage (toXid s.nextXid) = true ∧ s' = { s with
          nextXid := transactionIdAdvance s.nextXid
          pages := Function.update s.pages (transactionIdToPage (toXid s.nextXid)) true
          entry := fun x => if transactionIdToPage x = transactionIdToPage (toXid s.nextXid)
            then (0, 0) else s.entry x
          latestPageNumber := transactionIdToPage (toXid s.nextXid) }) ∨
        (firstOnPage (toXid s.nextXid) = false ∧
          s' = { s with nextXid := transactionIdAdvance s.nextXid })) := by
  rw [getNewTransactionId] at hs
  split_ifs at hs with hlim hfirst
  · refine ⟨?_, Or.inl ⟨hfirst, (Option.some.inj hs).symm⟩⟩
    by_contra hge
    exact hlim (past_limits h (by omega))
  · refine ⟨?_, Or.inr ⟨Bool.not_eq_true _ ▸ hfirst, (Option.some.inj hs).symm⟩⟩
    by_contra hge
    exact hlim (past_limits h (by omega))

omit [DecidableEq B] in
theorem LogInv.getNewTransactionId (h : LogInv procs s)
    (hs : getNewTransactionId limits s = some s') : LogInv procs s' := by
  obtain ⟨hlt, hcase⟩ := getNewTransactionId_eq h hs
  have hadv := lt_advance s.nextXid
  have hnear : transactionIdAdvance s.nextXid ≤ s.nextXid + 4 := by
    rcases advance_cases s.nextXid with ⟨hn, he⟩ | ⟨hn, he⟩ <;> rw [he] <;> omega
  have hsame : ∀ {page}, (firstOnPage (toXid s.nextXid) = true → page = s.nextXid / 4096 % 2 ^ 20) →
      (firstOnPage (toXid s.nextXid) = false → page = s.latestPageNumber) →
      ∃ lp, page = lp % 2 ^ 20 ∧ lp ≤ transactionIdAdvance s.nextXid / 4096 ∧
        transactionIdAdvance s.nextXid / 4096 ≤ lp + 1 ∧
        (firstOnPage (toXid (transactionIdAdvance s.nextXid)) = false →
          lp = transactionIdAdvance s.nextXid / 4096) := by
    intro page h₁ h₂
    refine ⟨s.nextXid / 4096, ?_, by omega, by omega, fun hf => (advance_same_page hf).2.symm⟩
    cases hf : firstOnPage (toXid s.nextXid) with
    | true => exact h₁ hf
    | false =>
      obtain ⟨lp, hlp, -, -, hlast⟩ := h.latest
      rw [h₂ hf, hlp, hlast hf]
  have hcov : ∀ {pages'}, (∀ page, s.pages page = true → pages' page = true) →
      (firstOnPage (toXid s.nextXid) = true →
        pages' (transactionIdToPage (toXid s.nextXid)) = true) → ∀ x ≤ s.nextXid,
      Covered s.pages s.nextXid x → Covered pages' (transactionIdAdvance s.nextXid) x :=
    fun hsub hfirst x hx hc => hc.advance hx h.next_normal hsub hfirst
  obtain ⟨hf, rfl⟩ | ⟨hf, rfl⟩ := hcase
  · have hsub : ∀ page, s.pages page = true →
        Function.update s.pages (transactionIdToPage (toXid s.nextXid)) true page = true := by
      intro page hp
      by_cases he : page = transactionIdToPage (toXid s.nextXid)
      · rw [he, Function.update_self]
      · rw [Function.update_of_ne he]
        exact hp
    have hfirst : firstOnPage (toXid s.nextXid) = true →
        Function.update s.pages (transactionIdToPage (toXid s.nextXid)) true
          (transactionIdToPage (toXid s.nextXid)) = true := fun _ => Function.update_self _ _ _
    exact { h with
      next_normal := advance_normal _
      xmin_le_next := h.xmin_le_next.trans hadv.le
      next_le := by show _ ≤ s.oldestXid + xidWindow; simp only [xidWindow]; omega
      latest := hsame (fun _ => toPage_toXid _) (fun hf' => absurd (hf.symm.trans hf') (by decide))
      covered := hcov hsub hfirst _ h.xmin_le_next h.covered
      pcs := fun b => (h.pcs b).mono hadv.le (h.pcs b).holdsBack le_rfl
        fun x hx _ hc => hcov hsub hfirst x hx hc }
  · have hfirst : firstOnPage (toXid s.nextXid) = true →
        s.pages (transactionIdToPage (toXid s.nextXid)) = true :=
      fun hf' => absurd (hf.symm.trans hf') (by decide)
    exact { h with
      next_normal := advance_normal _
      xmin_le_next := h.xmin_le_next.trans hadv.le
      next_le := by show _ ≤ s.oldestXid + xidWindow; simp only [xidWindow]; omega
      latest := hsame (fun hf' => absurd (hf.symm.trans hf') (by decide)) (fun _ => rfl)
      covered := hcov (fun _ hp => hp) hfirst _ h.xmin_le_next h.covered
      pcs := fun b => (h.pcs b).mono hadv.le (h.pcs b).holdsBack le_rfl
        fun x hx _ hc => hcov (fun _ hp => hp) hfirst x hx hc }

omit [DecidableEq B] in
theorem LogInv.setTransactionIdLimit (h : LogInv procs s) {oldestXid : Nat}
    (hs : setTransactionIdLimit procs s oldestXid = some s') : LogInv procs s' := by
  rw [Dtx.setTransactionIdLimit] at hs
  split_ifs at hs with hc
  obtain ⟨-, hle, hmin, hall⟩ := hc
  cases hs
  refine { h with
    oldestXid_pos := h.oldestXid_pos.trans hle
    oldestXid_le := hmin
    next_le := h.next_le.trans (Nat.add_le_add_right hle _)
    pcs := ?_ }
  intro b
  refine (h.pcs b).mono le_rfl ?_ le_rfl fun _ _ _ hc => hc
  by_cases hidle : s.pc b = .idle
  · show holdsBack oldestXid (s.pc b) = true
    rw [hidle]
    rfl
  · exact List.all_eq_true.mp hall b (h.members b hidle)

omit [DecidableEq B] in
theorem LogInv.setCommitted (h : LogInv procs s) {localXid distribTimeStamp distribXid : Nat}
    (hs : setCommitted s localXid distribTimeStamp distribXid = some s') : LogInv procs s' := by
  rw [Dtx.setCommitted] at hs
  split_ifs at hs
  cases hs
  exact { h with
    pcs := fun b => (h.pcs b).mono le_rfl (h.pcs b).holdsBack le_rfl fun _ _ _ hc => hc }

theorem LogInv.advanceOldestXmin (h : LogInv procs s) {olx ts xminAll xmin : Nat} (hb : b ∈ procs)
    (hs : advanceOldestXmin s b olx ts xminAll xmin = some s') : LogInv procs s' := by
  rw [Dtx.advanceOldestXmin] at hs
  split_ifs at hs with hc
  obtain ⟨-, hn, hlow, hxmin, hnext⟩ := hc
  cases hs
  have hwin := h.next_le
  have h₁ := h.oldestXid_le
  have h₂ := h.xmin_le_next
  simp only [xidWindow] at hwin
  refine h.setPc ⟨⟨h.xmin_normal, (toXid_normal_iff _).mp hn, le_rfl, le_max_left _ _, h₂,
    hxmin.trans hnext, ?_, ?_, hlow.trans hxmin, ?_⟩, h.covered⟩ fun _ => hb
  · show olx < s.oldestXmin + 2 ^ 31
    omega
  · show s.oldestXmin < olx + 2 ^ 31
    omega
  · show xmin ≤ s.oldestXmin + xidWindow
    simp only [xidWindow]
    omega

theorem LogInv.scanEntry (h : LogInv procs s) (hs : scanEntry s b = some s') :
    LogInv procs s' := by
  rw [Dtx.scanEntry] at hs
  cases hpc : s.pc b with
  | scanning r =>
    have hb : b ∈ procs := h.members b (by rw [hpc]; exact LogPc.noConfusion)
    have hok : AdvanceOk s r ∧ Covered s.pages s.nextXid r.oldOldestXmin := by
      have := h.pcs b
      rwa [hpc] at this
    obtain ⟨ho, hcov⟩ := hok
    simp only [hpc] at hs
    -- The scan is between its start and `oldestLocalXmin`, so that the test is the order.
    have hle := ho.cur_le
    have hnear := ho.local_near
    have hnear' := ho.old_near
    have hold := ho.old_le
    have hprec := precedes_toXid ho.cur_normal ho.local_normal (by omega) (by omega)
    split_ifs at hs with hp hpage hstop
    · cases hs
      exact h.setPc ⟨ho, hcov⟩ fun _ => hb
    · cases hs
      have hlt := hprec.mp hp
      refine h.setPc ⟨{ ho with
        cur_normal := advance_normal _
        old_le := hold.trans (lt_advance _).le
        cur_le := le_max_of_le_right (advance_le_of_lt hlt ho.local_normal) }, hcov⟩ fun _ => hb
    · have hlt := hprec.mp hp
      have hnext := ho.local_le_next
      exact absurd (hcov r.oldestXmin ((toXid_normal_iff _).mpr ho.cur_normal) hold (by omega)
        fun he => by omega) hpage
    · cases hs
      exact h.setPc ⟨ho, hcov⟩ fun _ => hb
  | idle | stopped | truncating | checking => simp [hpc] at hs

/-- The horizon is written forwards. -/
theorem LogInv.writeOldestXmin (h : LogInv procs s)
    (hok : keepsHorizon s (.writeOldestXmin b) = true)
    (hs : writeOldestXmin s b = some s') : LogInv procs s' ∧ s.oldestXmin ≤ s'.oldestXmin := by
  rw [Dtx.writeOldestXmin] at hs
  cases hpc : s.pc b with
  | stopped r =>
    have hb : b ∈ procs := h.members b (by rw [hpc]; exact LogPc.noConfusion)
    simp only [keepsHorizon, hpc, decide_eq_true_eq] at hok
    obtain ⟨ho, hcov⟩ : AdvanceOk s r ∧ Covered s.pages s.nextXid r.oldOldestXmin := by
      have := h.pcs b
      rwa [hpc] at this
    have hinv : LogInv procs { s with oldestXmin := r.oldestXmin } := { h with
      xmin_normal := ho.cur_normal
      oldestXid_le := h.oldestXid_le.trans hok
      xmin_le_next := ho.cur_le.trans (max_le ho.old_le_next ho.local_le_next)
      covered := hcov.mono ho.old_le
      pcs := fun b => (h.pcs b).mono le_rfl (h.pcs b).holdsBack hok fun _ _ _ hc => hc }
    simp only [hpc] at hs
    split_ifs at hs
    · cases hs
      exact ⟨hinv.setPc ⟨ho.mono le_rfl ho.oldestXid_le, le_rfl⟩ fun _ => hb, hok⟩
    · cases hs
      exact ⟨hinv.setPc trivial fun hne => absurd rfl hne, hok⟩
  | idle | scanning | truncating | checking => simp [hpc] at hs

theorem LogInv.truncate (h : LogInv procs s) (hs : truncate procs s b = some s') :
    LogInv procs s' := by
  rw [Dtx.truncate] at hs
  cases hpc : s.pc b with
  | truncating r =>
    obtain ⟨ho, hmin⟩ : AdvanceOk s r ∧ r.oldestXmin ≤ s.oldestXmin := by
      have := h.pcs b
      rwa [hpc] at this
    simp only [hpc] at hs
    split_ifs at hs with hlock
    cases hs
    obtain ⟨lp, hlp, hlp₁, hlp₂, hlp₃⟩ := h.latest
    -- The backend has held the horizon of freezing back since it read the shared one.
    have hspan : s.nextXid ≤ r.oldestXmin + (2 ^ 32 - 262144) := by
      have h₁ := h.next_le
      have h₂ := ho.oldestXid_le
      have h₃ := ho.xmin_near
      have h₄ := ho.old_le
      simp only [xidWindow] at h₁ h₃
      omega
    have hcov : ∀ x, r.oldestXmin ≤ x → Covered s.pages s.nextXid x →
        Covered (simpleLruTruncate s.latestPageNumber
          (transactionIdToPage (toXid r.oldestXmin)) s.pages) s.nextXid x := by
      intro x hx hc
      rw [hlp]
      exact hc.truncate hx hspan hlp₁ hlp₂ hlp₃
    have hidle : LogInv procs (s.setPc b .idle) := h.setPc trivial fun hne => absurd rfl hne
    refine { hidle with
      covered := hcov _ hmin h.covered
      pcs := fun b' => (hidle.pcs b').mono le_rfl (hidle.pcs b').holdsBack le_rfl ?_ }
    -- Nobody is scanning, so that no other pages are needed.
    intro x hx hholds _
    have hfree : holdsTruncateLock ((s.setPc b .idle).pc b') = false := by
      simp only [LogState.setPc]
      by_cases hb' : b' = b
      · rw [hb', Function.update_self]
        rfl
      · rw [Function.update_of_ne hb']
        by_cases hidle' : s.pc b' = .idle
        · rw [hidle']
          rfl
        · rw [List.any_eq_true] at hlock
          by_contra hh
          exact hlock ⟨b', h.members b' hidle', Bool.not_eq_false _ ▸ hh⟩
    rw [hfree] at hholds
    exact absurd hholds Bool.false_ne_true
  | idle | scanning | stopped | checking => simp [hpc] at hs

theorem LogInv.committedCheck (h : LogInv procs s) {localXid : Nat} (hb : b ∈ procs)
    (hs : committedCheck s b localXid = some s') : LogInv procs s' := by
  rw [Dtx.committedCheck] at hs
  split_ifs at hs with hc hp
  · cases hs
    exact h
  · cases hs
    exact h.setPc ⟨hc.2.1, hc.2.2.2⟩ fun _ => hb

theorem LogInv.readEntry (h : LogInv procs s) (hok : keepsHorizon s (.readEntry b) = true)
    (hs : readEntry s b = some s') : LogInv procs s' := by
  rw [Dtx.readEntry] at hs
  cases hpc : s.pc b with
  | checking x =>
    obtain ⟨hn, hlt⟩ : transactionIdIsNormal (toXid x) = true ∧ x < s.nextXid := by
      have := h.pcs b
      rwa [hpc] at this
    simp only [keepsHorizon, hpc, decide_eq_true_eq] at hok
    have hpage := h.covered x hn hok hlt.le fun he => absurd he hlt.ne
    simp only [hpc, hpage, if_true] at hs
    cases hs
    exact h.setPc trivial fun hne => absurd rfl hne
  | idle | scanning | stopped | truncating => simp [hpc] at hs

/-- **One step.** It keeps the invariant and does not move the horizon backwards. -/
theorem LogInv.step (h : LogInv procs s) {a : LogAction B} (hok : keepsHorizon s a = true)
    (hs : logStep limits procs s a = some s') :
    LogInv procs s' ∧ s.oldestXmin ≤ s'.oldestXmin := by
  have hrest : LogInv procs s' → s'.oldestXmin = s.oldestXmin →
      LogInv procs s' ∧ s.oldestXmin ≤ s'.oldestXmin := fun hinv he => ⟨hinv, he.ge⟩
  cases a with
  | getNewTransactionId =>
    refine hrest (h.getNewTransactionId hs) ?_
    rcases (getNewTransactionId_eq h hs).2 with ⟨-, rfl⟩ | ⟨-, rfl⟩ <;> rfl
  | setTransactionIdLimit x =>
    refine hrest (h.setTransactionIdLimit hs) ?_
    simp only [logStep, Dtx.setTransactionIdLimit] at hs
    split_ifs at hs
    cases hs
    rfl
  | setCommitted x t d =>
    refine hrest (h.setCommitted hs) ?_
    simp only [logStep, Dtx.setCommitted] at hs
    split_ifs at hs
    cases hs
    rfl
  | advanceOldestXmin b olx ts xminAll xmin =>
    simp only [logStep] at hs
    split_ifs at hs with hb
    refine hrest (h.advanceOldestXmin hb hs) ?_
    rw [Dtx.advanceOldestXmin] at hs
    split_ifs at hs
    cases hs
    rfl
  | scanEntry b =>
    refine hrest (h.scanEntry hs) ?_
    simp only [logStep, Dtx.scanEntry] at hs
    split at hs
    · split_ifs at hs <;> cases hs <;> rfl
    · cases hs
  | writeOldestXmin b => exact h.writeOldestXmin hok hs
  | truncate b =>
    refine hrest (h.truncate hs) ?_
    simp only [logStep, Dtx.truncate] at hs
    split at hs
    · split_ifs at hs
      cases hs
      rfl
    · cases hs
  | committedCheck b x =>
    simp only [logStep] at hs
    split_ifs at hs with hb
    refine hrest (h.committedCheck hb hs) ?_
    rw [Dtx.committedCheck] at hs
    split_ifs at hs <;> cases hs <;> rfl
  | readEntry b =>
    refine hrest (h.readEntry hok hs) ?_
    simp only [logStep, Dtx.readEntry] at hs
    split at hs
    · split_ifs at hs <;> cases hs <;> rfl
    · cases hs

end Preservation

/-! ## Every run -/

/-- **The horizon is safe.** In a run in which no scan writes behind the horizon and no look-up
reads behind it, the horizon never moves backwards, the pages from it on are there, and no page is
read that is not. -/
theorem distributedLog_horizon (limits : XidLimits) (procs : List B) {s₀ s₁ s₂ : LogState B}
    {as bs : List (LogAction B)} (h₀ : Started s₀)
    (hok₁ : Along (logStep limits procs) (keepsHorizon · · = true) s₀ as)
    (hrun₁ : run (logStep limits procs) s₀ as = some s₁)
    (hok₂ : Along (logStep limits procs) (keepsHorizon · · = true) s₁ bs)
    (hrun₂ : run (logStep limits procs) s₁ bs = some s₂) :
    s₁.oldestXmin ≤ s₂.oldestXmin ∧ Covered s₂.pages s₂.nextXid s₂.oldestXmin ∧
      s₂.missedPage = false := by
  have h₁ : LogInv procs s₁ :=
    run_invariant_along (fun _ _ _ h hok hs => (h.step hok hs).1) hok₁ h₀.inv hrun₁
  have h₂ : LogInv procs s₂ ∧ s₁.oldestXmin ≤ s₂.oldestXmin := by
    refine run_invariant_along (I := fun s => LogInv procs s ∧ s₁.oldestXmin ≤ s.oldestXmin) ?_
      hok₂ ⟨h₁, le_rfl⟩ hrun₂
    intro s a s' h hok hs
    obtain ⟨hinv, hle⟩ := h.1.step hok hs
    exact ⟨hinv, h.2.trans hle⟩
  exact ⟨h₂.2, h₂.1.covered, h₂.1.missed⟩

/-! ## Races -/

/-- The default settings. -/
def defaultLimits : XidLimits := ⟨100000000, 200000000, by decide, by decide⟩

def bothBackends : List (Fin 2) := [0, 1]

/-- The horizon is the last id of the first segment, committed with distributed id 5, and some ids
of the second segment are assigned. -/
def segmentEnd : LogState (Fin 2) where
  oldestXmin := 131071
  nextXid := 131080
  oldestXid := 131071
  pages := fun page => page ≤ 32
  latestPageNumber := 32
  entry := fun x => if x = 131071 then (1, 5) else (0, 0)
  pc := fun _ => .idle
  missedPage := false

theorem started_segmentEnd : Started segmentEnd where
  oldestXid_normal := by decide
  xmin_normal := by decide
  next_normal := by decide
  oldestXid_le := by decide
  xmin_le_next := by decide
  next_le := by decide
  latest := by decide
  covered := by
    intro y _ hy hy' _
    rw [toPage_toXid]
    have h₁ : 131071 ≤ y := hy
    have h₂ : y ≤ 131080 := hy'
    exact decide_eq_true (by omega)
  idle := fun _ => rfl
  missed := rfl

/-- A backend advances the horizon into the second segment and truncates the first one. -/
def quietRun : List (LogAction (Fin 2)) :=
  [.advanceOldestXmin 0 131073 1 10 131073, .scanEntry 0, .scanEntry 0, .scanEntry 0,
    .writeOldestXmin 0, .truncate 0]

theorem distributedLog_horizon_quiet :
    ∃ s₂, run (logStep defaultLimits bothBackends) segmentEnd
        (quietRun ++ [.committedCheck 1 131074, .readEntry 1]) = some s₂ ∧
      segmentEnd.oldestXmin ≤ s₂.oldestXmin ∧ Covered s₂.pages s₂.nextXid s₂.oldestXmin ∧
      s₂.missedPage = false := by
  obtain ⟨s₂, hs₂⟩ : ∃ s₂, run (logStep defaultLimits bothBackends) segmentEnd
      (quietRun ++ [.committedCheck 1 131074, .readEntry 1]) = some s₂ :=
    Option.isSome_iff_exists.mp (by decide +kernel)
  have hok : Along (logStep defaultLimits bothBackends) (keepsHorizon · · = true) segmentEnd [] :=
    trivial
  exact ⟨s₂, hs₂, distributedLog_horizon defaultLimits bothBackends started_segmentEnd hok rfl
    (by decide +kernel) hs₂⟩

/-- Backend 1, whose snapshot still needs the id at the horizon, starts its scan before backend 0
has written, and writes after it. -/
def raceRun : List (LogAction (Fin 2)) :=
  [.advanceOldestXmin 0 131073 1 10 131073, .advanceOldestXmin 1 131073 1 5 131073, .scanEntry 1,
    .scanEntry 0, .scanEntry 0, .scanEntry 0, .writeOldestXmin 0]

/-- Backend 1 looks an id up, and backend 0 truncates its page after the look at the horizon. -/
def lateReadRun : List (LogAction (Fin 2)) := .committedCheck 1 131071 :: quietRun ++ [.readEntry 1]

/-- **The horizon moves back, and pages are read that are gone.** The slow writer undoes the fast
one, which then truncates the page the horizon is on. A look-up with a stale horizon reads a
truncated page too. -/
theorem horizon_moves_back :
    Started segmentEnd ∧
    (∃ s₁ s₂, run (logStep defaultLimits bothBackends) segmentEnd raceRun = some s₁ ∧
      run (logStep defaultLimits bothBackends) s₁ [.writeOldestXmin 1, .truncate 0,
        .committedCheck 1 131071, .readEntry 1] = some s₂ ∧
      s₂.oldestXmin < s₁.oldestXmin ∧ ¬ Covered s₂.pages s₂.nextXid s₂.oldestXmin ∧
      s₂.missedPage = true) ∧
    ∃ s, run (logStep defaultLimits bothBackends) segmentEnd lateReadRun = some s ∧
      s.missedPage = true := by
  refine ⟨started_segmentEnd, ?_, ?_⟩
  · obtain ⟨s₁, hs₁⟩ : ∃ s₁, run (logStep defaultLimits bothBackends) segmentEnd raceRun =
      some s₁ :=
      Option.isSome_iff_exists.mp (by decide +kernel)
    have hx : (run (logStep defaultLimits bothBackends) segmentEnd raceRun).map (·.oldestXmin) =
        some 131073 := by decide +kernel
    obtain ⟨s₂, hs₂⟩ : ∃ s₂, run (logStep defaultLimits bothBackends) segmentEnd
        (raceRun ++ [.writeOldestXmin 1, .truncate 0, .committedCheck 1 131071, .readEntry 1]) =
          some s₂ :=
      Option.isSome_iff_exists.mp (by decide +kernel)
    have hy : (run (logStep defaultLimits bothBackends) segmentEnd
        (raceRun ++ [.writeOldestXmin 1, .truncate 0, .committedCheck 1 131071, .readEntry 1])).map
          (fun s => (s.oldestXmin, s.nextXid, s.pages 31, s.missedPage)) =
        some (131071, 131080, false, true) := by decide +kernel
    rw [hs₁, Option.map_some, Option.some.injEq] at hx
    rw [hs₂, Option.map_some, Option.some.injEq, Prod.mk.injEq, Prod.mk.injEq, Prod.mk.injEq] at hy
    rw [run_append, hs₁, Option.bind_some] at hs₂
    refine ⟨s₁, s₂, hs₁, hs₂, by omega, ?_, hy.2.2.2⟩
    intro hcov
    have hpage := hcov 131071 (by decide) hy.1.le (by omega) fun he => by omega
    exact absurd (hpage.symm.trans hy.2.2.1) (by decide)
  · exact Option.map_eq_some_iff.mp (by decide +kernel :
      (run (logStep defaultLimits bothBackends) segmentEnd lateReadRun).map (·.missedPage) =
        some true)

end Hdb.Dtx
