import Hdb.Dtx.LogHorizon
import Hdb.Lib.WriteOnce

/-!
# Recording a committed transaction tree

`DistributedLog_SetCommittedTree` gives the entries of a transaction and of its subtransactions
their time stamp and distributed id. The ids of the subtransactions are handed on in groups of ids
that follow one another in the array and are on one page; the loop that measures a group looks at
an id before it asks whether the array has it.

The pages of assigned ids are there, on disk or in a buffer. In redo, a page that is not on disk is
zeroed first, and the zeroed page is in a buffer only.

Main results: `setCommittedByPages_eq`, the groups write what the ids one after the other would,
and `recordsTree_iff`, when the function reads the array only and touches the ids listed only.
-/

namespace Hdb.Dtx

open WriteOnce

/-! ## The function -/

@[ext]
structure DistributedLogEntry where
  distribTimeStamp : ℕ
  distribXid : ℕ
  deriving DecidableEq, Repr

/-- An entry of a page of zeros. -/
def zeroEntry : DistributedLogEntry := ⟨0, 0⟩

/-- The log as its buffers have it, and the pages that are on disk
(`SimpleLruDoesPhysicalPageExist`). -/
@[ext]
structure LogPages where
  entry : ℕ → DistributedLogEntry
  physical : ℕ → Bool

inductive LogError
  /-- "Current distributed timestamp = %u does not match input timestamp = %u for local xid = %u in
  distributed log (page = %d, entryno = %d)" -/
  | timeStamp (current input localXid page entryno : ℕ)
  /-- "Current distributed xid = %u does not match input distributed xid = %u for local xid = %u in
  distributed log (page = %d, entryno = %d)" -/
  | xid (current input localXid page entryno : ℕ)
  deriving DecidableEq, Repr

/-- `DistributedLog_ZeroPage`, without a log record. -/
def zeroPage (log : LogPages) (page : ℕ) : LogPages :=
  { log with entry := fun x => if transactionIdToPage x = page then zeroEntry else log.entry x }

/-- The error for an id that has another entry. -/
def logError (entry : ℕ → DistributedLogEntry) (e : DistributedLogEntry) (localXid : ℕ) :
    LogError :=
  let ptr := entry localXid
  let page := transactionIdToPage localXid
  let entryno := transactionIdToEntry localXid
  if ptr.distribTimeStamp ≠ e.distribTimeStamp then
    .timeStamp ptr.distribTimeStamp e.distribTimeStamp localXid page entryno
  else .xid ptr.distribXid e.distribXid localXid page entryno

/-- The loop over the ids of a page. An error leaves what was written before. -/
def setEntries (e : DistributedLogEntry) :
    (ℕ → DistributedLogEntry) → List ℕ → (ℕ → DistributedLogEntry) × Option LogError
  | entry, [] => (entry, none)
  | entry, localXid :: localXids =>
    let ptr := entry localXid
    if ptr.distribTimeStamp ≠ 0 ∨ ptr.distribXid ≠ 0 then
      if ptr.distribTimeStamp ≠ e.distribTimeStamp then (entry, some (logError entry e localXid))
      else if ptr.distribXid ≠ e.distribXid then (entry, some (logError entry e localXid))
      else setEntries e entry localXids
    else setEntries e (Function.update entry localXid e) localXids

/-- The page of the first id is the page all entries are written on. -/
def setCommittedWithinAPage (localXids : List ℕ) (e : DistributedLogEntry) (isRedo : Bool)
    (log : LogPages) : LogPages × Option LogError :=
  let page := transactionIdToPage localXids.head!
  let log := if isRedo = true ∧ log.physical page = false then zeroPage log page else log
  let r := setEntries e log.entry localXids
  ({ log with entry := r.1 }, r.2)

/-- The inner loop of `DistributedLog_SetCommittedByPages` from `i` on: where it stops, and the
indices it reads. The page of `subxids[i]` is looked at before `i` is compared with `nsubxids`. -/
def pageRun (subxids : ℕ → ℕ) (nsubxids pageno i : ℕ) : ℕ × List ℕ :=
  if transactionIdToPage (subxids i) = pageno ∧ i < nsubxids then
    let r := pageRun subxids nsubxids pageno (i + 1)
    (r.1, i :: r.2)
  else (i, [i])
termination_by nsubxids - i

theorem pageRun_of_mem {subxids : ℕ → ℕ} {nsubxids pageno i : ℕ}
    (h : transactionIdToPage (subxids i) = pageno ∧ i < nsubxids) :
    pageRun subxids nsubxids pageno i =
      ((pageRun subxids nsubxids pageno (i + 1)).1,
        i :: (pageRun subxids nsubxids pageno (i + 1)).2) := by
  rw [pageRun, if_pos h]

theorem pageRun_of_not {subxids : ℕ → ℕ} {nsubxids pageno i : ℕ}
    (h : ¬ (transactionIdToPage (subxids i) = pageno ∧ i < nsubxids)) :
    pageRun subxids nsubxids pageno i = (i, [i]) := by
  rw [pageRun, if_neg h]

/-- What the inner loop passes over is in the array and on the page. -/
theorem pageRun_spec (subxids : ℕ → ℕ) (pageno : ℕ) {nsubxids i : ℕ} (hi : i ≤ nsubxids) :
    i ≤ (pageRun subxids nsubxids pageno i).1 ∧ (pageRun subxids nsubxids pageno i).1 ≤ nsubxids ∧
    (∀ k, i ≤ k → k < (pageRun subxids nsubxids pageno i).1 →
      transactionIdToPage (subxids k) = pageno) ∧
    ((pageRun subxids nsubxids pageno i).1 < nsubxids →
      transactionIdToPage (subxids (pageRun subxids nsubxids pageno i).1) ≠ pageno) ∧
    ∀ k, k ∈ (pageRun subxids nsubxids pageno i).2 ↔
      i ≤ k ∧ k ≤ (pageRun subxids nsubxids pageno i).1 := by
  induction hd : nsubxids - i generalizing i with
  | zero =>
    rw [pageRun_of_not (by omega)]
    refine ⟨le_rfl, hi, fun k _ _ => by omega, fun _ => by omega, fun k => ?_⟩
    rw [List.mem_singleton]
    omega
  | succ d ih =>
    by_cases h : transactionIdToPage (subxids i) = pageno ∧ i < nsubxids
    · rw [pageRun_of_mem h]
      obtain ⟨hle, hn, hpage, hstop, hreads⟩ := ih (i := i + 1) h.2 (by omega)
      refine ⟨by omega, hn, fun k hk hlt => ?_, hstop, fun k => ?_⟩
      · by_cases hki : k = i
        · rw [hki, h.1]
        · exact hpage k (by omega) hlt
      · rw [List.mem_cons, hreads]
        omega
    · rw [pageRun_of_not h]
      refine ⟨le_rfl, hi, fun k _ _ => by omega, fun hlt hpage => h ⟨hpage, hlt⟩, fun k => ?_⟩
      rw [List.mem_singleton]
      omega

theorem lt_pageRun (subxids : ℕ → ℕ) {nsubxids i : ℕ} (hi : i < nsubxids) :
    i < (pageRun subxids nsubxids (transactionIdToPage (subxids i)) i).1 := by
  rw [pageRun_of_mem ⟨rfl, hi⟩]
  have h := (pageRun_spec subxids (transactionIdToPage (subxids i)) (Nat.succ_le_of_lt hi)).1
  exact h

/-- The ids at the indices from `i` up to `j`. -/
def slice (subxids : ℕ → ℕ) (i j : ℕ) : List ℕ := (List.range' i (j - i)).map subxids

/-- What a call did: the log, the error it raised, the groups it handed on, and the indices of the
array it read. -/
structure TreeResult where
  log : LogPages
  error : Option LogError
  groups : List (List ℕ)
  reads : List ℕ

/-- `DistributedLog_SetCommittedByPages`, from `i` on. -/
def setCommittedByPages (subxids : ℕ → ℕ) (nsubxids : ℕ) (e : DistributedLogEntry) (isRedo : Bool)
    (i : ℕ) (log : LogPages) : TreeResult :=
  if _h : i < nsubxids then
    let range := pageRun subxids nsubxids (transactionIdToPage (subxids i)) i
    let group := slice subxids i range.1
    let r := setCommittedWithinAPage group e isRedo log
    match r.2 with
    | some error => ⟨r.1, some error, [group], i :: range.2⟩
    | none =>
      let rest := setCommittedByPages subxids nsubxids e isRedo range.1 r.1
      ⟨rest.log, rest.error, group :: rest.groups, i :: range.2 ++ rest.reads⟩
  else ⟨log, none, [], []⟩
termination_by nsubxids - i
decreasing_by
  have hlt := lt_pageRun subxids _h
  omega

/-- `DistributedLog_SetCommittedTree`. The dispatcher keeps no log. -/
def setCommittedTree (isQueryDispatcher : Bool) (xid nxids : ℕ) (xids : ℕ → ℕ)
    (e : DistributedLogEntry) (isRedo : Bool) (log : LogPages) : TreeResult :=
  if isQueryDispatcher then ⟨log, none, [], []⟩
  else
    let r := setCommittedWithinAPage [xid] e isRedo log
    match r.2 with
    | some error => ⟨r.1, some error, [[xid]], []⟩
    | none =>
      let rest := setCommittedByPages xids nxids e isRedo 0 r.1
      ⟨rest.log, rest.error, [xid] :: rest.groups, rest.reads⟩

/-! ## One page -/

/-- The loop writes every id once. -/
theorem setEntries_eq (e : DistributedLogEntry) (entry : ℕ → DistributedLogEntry)
    (localXids : List ℕ) :
    setEntries e entry localXids =
      ((putAll zeroEntry e entry localXids).1,
        (putAll zeroEntry e entry localXids).2.map
          (logError (putAll zeroEntry e entry localXids).1 e)) := by
  induction localXids generalizing entry with
  | nil => rfl
  | cons x xs ih =>
    have hzero : entry x ≠ zeroEntry ↔
        (entry x).distribTimeStamp ≠ 0 ∨ (entry x).distribXid ≠ 0 := by
      rw [ne_eq, DistributedLogEntry.ext_iff, not_and_or]
      rfl
    have hother : entry x ≠ e ↔ (entry x).distribTimeStamp ≠ e.distribTimeStamp ∨
        (entry x).distribXid ≠ e.distribXid := by
      rw [ne_eq, DistributedLogEntry.ext_iff, not_and_or]
    rw [setEntries, putAll]
    by_cases htaken : WriteOnce.Taken zeroEntry e entry x
    · have htaken' := htaken
      rw [WriteOnce.Taken, hzero, hother] at htaken'
      rw [if_pos htaken, if_pos htaken'.1]
      split_ifs with ht hd
      · rfl
      · rfl
      · exact absurd htaken'.2 (by tauto)
    · rw [if_neg htaken]
      split_ifs with hz ht hd
      · exact absurd ⟨hzero.mpr hz, hother.mpr (.inl ht)⟩ htaken
      · exact absurd ⟨hzero.mpr hz, hother.mpr (.inr hd)⟩ htaken
      · have hsame : entry x = e := by
          by_contra hne
          exact (hother.mp hne).elim ht hd
        rw [Function.update_eq_self_iff.mpr hsame.symm]
        exact ih entry
      · exact ih _

/-- The page is zeroed before it is written on. -/
def Zeroed (log : LogPages) (isRedo : Bool) (page : ℕ) : Prop :=
  isRedo = true ∧ log.physical page = false

instance (log : LogPages) (isRedo : Bool) (page : ℕ) : Decidable (Zeroed log isRedo page) :=
  inferInstanceAs (Decidable (_ ∧ _))

/-- The id has another entry, on a page that is not zeroed. -/
def Conflicts (log : LogPages) (isRedo : Bool) (e : DistributedLogEntry) (x : ℕ) : Prop :=
  ¬ Zeroed log isRedo (transactionIdToPage x) ∧ WriteOnce.Taken zeroEntry e log.entry x

instance (log : LogPages) (isRedo : Bool) (e : DistributedLogEntry) (x : ℕ) :
    Decidable (Conflicts log isRedo e x) :=
  inferInstanceAs (Decidable (_ ∧ _))

theorem conflicts_of_taken {log log' : LogPages} {isRedo : Bool} {e : DistributedLogEntry} {x : ℕ}
    (hphysical : log'.physical = log.physical)
    (htaken : ¬ Zeroed log isRedo (transactionIdToPage x) →
      (WriteOnce.Taken zeroEntry e log'.entry x ↔ WriteOnce.Taken zeroEntry e log.entry x)) :
    Conflicts log' isRedo e x ↔ Conflicts log isRedo e x := by
  have hzeroed : Zeroed log' isRedo (transactionIdToPage x) ↔
      Zeroed log isRedo (transactionIdToPage x) := by
    rw [Zeroed, Zeroed, hphysical]
  rw [Conflicts, Conflicts, hzeroed]
  exact and_congr_right htaken

section Page

variable {group : List ℕ} {e : DistributedLogEntry} {isRedo : Bool} {log : LogPages} {page y : ℕ}

theorem page_head (hne : group ≠ []) (hpage : ∀ x ∈ group, transactionIdToPage x = page) :
    transactionIdToPage group.head! = page := by
  cases group with
  | nil => exact absurd rfl hne
  | cons x xs => exact hpage x List.mem_cons_self

/-- On a page that is zeroed nothing is taken. -/
theorem setCommittedWithinAPage_of_zeroed (hne : group ≠ [])
    (hpage : ∀ x ∈ group, transactionIdToPage x = page) (hz : Zeroed log isRedo page) :
    (setCommittedWithinAPage group e isRedo log).2 = none ∧
    (setCommittedWithinAPage group e isRedo log).1.physical = log.physical ∧
    ∀ y, (setCommittedWithinAPage group e isRedo log).1.entry y =
      if y ∈ group then e else if transactionIdToPage y = page then zeroEntry
      else log.entry y := by
  have hnone : (putAll zeroEntry e (zeroPage log page).entry group).2 = none := by
    rw [putAll_eq_none]
    rintro x hx ⟨hzero, -⟩
    exact hzero (if_pos (hpage x hx))
  rw [setCommittedWithinAPage, page_head hne hpage]
  dsimp only
  rw [if_pos (show isRedo = true ∧ log.physical page = false from hz), setEntries_eq, hnone]
  refine ⟨rfl, rfl, fun y => ?_⟩
  split_ifs with hy hpy
  · exact putAll_mem hnone hy
  · exact (putAll_unchanged hy).trans (if_pos hpy)
  · exact (putAll_unchanged hy).trans (if_neg hpy)

theorem setCommittedWithinAPage_of_not_zeroed (hne : group ≠ [])
    (hpage : ∀ x ∈ group, transactionIdToPage x = page) (hz : ¬ Zeroed log isRedo page) :
    setCommittedWithinAPage group e isRedo log =
      ({ log with entry := (putAll zeroEntry e log.entry group).1 },
        (putAll zeroEntry e log.entry group).2.map
          (logError (putAll zeroEntry e log.entry group).1 e)) := by
  have hno : ¬ (isRedo = true ∧ log.physical page = false) := hz
  rw [setCommittedWithinAPage, page_head hne hpage, if_neg hno, setEntries_eq]

variable (e isRedo log) in
/-- An error on a page: some id of the group has another entry. -/
theorem setCommittedWithinAPage_error (hne : group ≠ [])
    (hpage : ∀ x ∈ group, transactionIdToPage x = page) :
    (setCommittedWithinAPage group e isRedo log).2 = none ↔
      ∀ x ∈ group, ¬ Conflicts log isRedo e x := by
  by_cases hz : Zeroed log isRedo page
  · refine ⟨fun _ x hx hc => hc.1 (hpage x hx ▸ hz), fun _ => ?_⟩
    exact (setCommittedWithinAPage_of_zeroed hne hpage hz).1
  · rw [setCommittedWithinAPage_of_not_zeroed hne hpage hz, Option.map_eq_none_iff, putAll_eq_none]
    refine forall₂_congr fun x hx => not_congr ?_
    rw [Conflicts, hpage x hx]
    exact (and_iff_right hz).symm

variable (e isRedo log) in
/-- The pages on disk stay the same. -/
theorem setCommittedWithinAPage_physical (hne : group ≠ [])
    (hpage : ∀ x ∈ group, transactionIdToPage x = page) :
    (setCommittedWithinAPage group e isRedo log).1.physical = log.physical := by
  by_cases hz : Zeroed log isRedo page
  · exact (setCommittedWithinAPage_of_zeroed hne hpage hz).2.1
  · rw [setCommittedWithinAPage_of_not_zeroed hne hpage hz]

variable (e isRedo log) in
/-- The entry of an id that is not listed. -/
theorem setCommittedWithinAPage_other (hne : group ≠ [])
    (hpage : ∀ x ∈ group, transactionIdToPage x = page) (hy : y ∉ group) :
    (setCommittedWithinAPage group e isRedo log).1.entry y =
      if Zeroed log isRedo page ∧ transactionIdToPage y = page then zeroEntry
      else log.entry y := by
  by_cases hz : Zeroed log isRedo page
  · rw [(setCommittedWithinAPage_of_zeroed hne hpage hz).2.2, if_neg hy]
    exact if_congr (and_iff_right hz).symm rfl rfl
  · rw [setCommittedWithinAPage_of_not_zeroed hne hpage hz, if_neg fun h => hz h.1]
    exact putAll_unchanged hy

theorem setCommittedWithinAPage_mem (hne : group ≠ [])
    (hpage : ∀ x ∈ group, transactionIdToPage x = page)
    (hnone : (setCommittedWithinAPage group e isRedo log).2 = none) (hy : y ∈ group) :
    (setCommittedWithinAPage group e isRedo log).1.entry y = e := by
  by_cases hz : Zeroed log isRedo page
  · rw [(setCommittedWithinAPage_of_zeroed hne hpage hz).2.2, if_pos hy]
  · rw [setCommittedWithinAPage_of_not_zeroed hne hpage hz] at hnone ⊢
    rw [Option.map_eq_none_iff] at hnone
    exact putAll_mem hnone hy

/-- A page written without an error leaves the conflicts as they are. -/
theorem conflicts_setCommittedWithinAPage (hne : group ≠ [])
    (hpage : ∀ x ∈ group, transactionIdToPage x = page)
    (hnone : (setCommittedWithinAPage group e isRedo log).2 = none) :
    Conflicts (setCommittedWithinAPage group e isRedo log).1 isRedo e y ↔
      Conflicts log isRedo e y := by
  have hno := (setCommittedWithinAPage_error e isRedo log hne hpage).mp hnone
  apply conflicts_of_taken (setCommittedWithinAPage_physical e isRedo log hne hpage)
  intro hzy
  by_cases hy : y ∈ group
  · have hwritten := setCommittedWithinAPage_mem hne hpage hnone hy
    exact ⟨fun ht => absurd ht (not_taken_self hwritten), fun ht => absurd ⟨hzy, ht⟩ (hno y hy)⟩
  · have hother : ¬ (Zeroed log isRedo page ∧ transactionIdToPage y = page) :=
      fun h => hzy (h.2 ▸ h.1)
    rw [WriteOnce.Taken, WriteOnce.Taken, setCommittedWithinAPage_other e isRedo log hne hpage hy,
      if_neg hother]

/-- A page written twice is as if written once. -/
theorem setCommittedWithinAPage_again (hne : group ≠ [])
    (hpage : ∀ x ∈ group, transactionIdToPage x = page)
    (hnone : (setCommittedWithinAPage group e isRedo log).2 = none) :
    setCommittedWithinAPage group e isRedo (setCommittedWithinAPage group e isRedo log).1 =
      setCommittedWithinAPage group e isRedo log := by
  have hphysical := setCommittedWithinAPage_physical e isRedo log hne
    hpage
  by_cases hz : Zeroed log isRedo page
  · have hz' : Zeroed (setCommittedWithinAPage group e isRedo log).1 isRedo page := by
      rw [Zeroed, hphysical]
      exact hz
    obtain ⟨-, -, hentry⟩ := setCommittedWithinAPage_of_zeroed (e := e) hne hpage hz
    obtain ⟨hnone', hphysical', hentry'⟩ := setCommittedWithinAPage_of_zeroed (e := e) hne hpage hz'
    refine Prod.ext (LogPages.ext (funext fun y => ?_) hphysical') (hnone'.trans hnone.symm)
    rw [hentry', hentry]
    split_ifs <;> rfl
  · have hz' : ¬ Zeroed (setCommittedWithinAPage group e isRedo log).1 isRedo page := by
      rw [Zeroed, hphysical]
      exact hz
    rw [setCommittedWithinAPage_of_not_zeroed hne hpage hz',
      setCommittedWithinAPage_of_not_zeroed hne hpage hz, putAll_again]

end Page

/-! ## The groups -/

section Groups

variable {subxids : ℕ → ℕ} {nsubxids i j : ℕ} {e : DistributedLogEntry} {isRedo : Bool}
  {log : LogPages}

theorem mem_slice {x : ℕ} : x ∈ slice subxids i j ↔ ∃ k, i ≤ k ∧ k < j ∧ subxids k = x := by
  rw [slice, List.mem_map]
  constructor
  · rintro ⟨k, hk, rfl⟩
    rw [List.mem_range'_1] at hk
    exact ⟨k, hk.1, by omega, rfl⟩
  · rintro ⟨k, hik, hkj, rfl⟩
    exact ⟨k, List.mem_range'_1.mpr ⟨hik, by omega⟩, rfl⟩

theorem slice_append (subxids : ℕ → ℕ) {k : ℕ} (hij : i ≤ j) (hjk : j ≤ k) :
    slice subxids i k = slice subxids i j ++ slice subxids j k := by
  obtain ⟨m, rfl⟩ := Nat.exists_eq_add_of_le hij
  obtain ⟨l, rfl⟩ := Nat.exists_eq_add_of_le hjk
  rw [slice, slice, slice, ← List.map_append, Nat.add_sub_cancel_left, Nat.add_sub_cancel_left,
    Nat.add_assoc, Nat.add_sub_cancel_left, List.range'_append_1]

theorem slice_self : slice subxids i i = [] := by
  rw [slice, Nat.sub_self]
  rfl

theorem slice_ne_nil (subxids : ℕ → ℕ) (h : i < j) : slice subxids i j ≠ [] :=
  List.ne_nil_of_mem (mem_slice.mpr ⟨i, le_rfl, h, rfl⟩)

/-- One round of `DistributedLog_SetCommittedByPages` hands on the ids up to `j`. -/
structure Round (subxids : ℕ → ℕ) (nsubxids i j : ℕ) (reads : List ℕ) : Prop where
  lt : i < j
  le : j ≤ nsubxids
  page : ∀ x ∈ slice subxids i j, transactionIdToPage x = transactionIdToPage (subxids i)
  /-- The group is as long as it can be. -/
  stop : j < nsubxids → transactionIdToPage (subxids j) ≠ transactionIdToPage (subxids i)
  reads : ∀ k, k ∈ reads ↔ i ≤ k ∧ k ≤ j

/-- A round, and then the end or the other rounds. -/
theorem setCommittedByPages_of_lt (subxids : ℕ → ℕ) (e : DistributedLogEntry) (isRedo : Bool)
    (log : LogPages) (hi : i < nsubxids) :
    ∃ j reads, Round subxids nsubxids i j reads ∧
      ((∃ error, (setCommittedWithinAPage (slice subxids i j) e isRedo log).2 = some error ∧
          setCommittedByPages subxids nsubxids e isRedo i log =
            ⟨(setCommittedWithinAPage (slice subxids i j) e isRedo log).1, some error,
              [slice subxids i j], i :: reads⟩) ∨
        ((setCommittedWithinAPage (slice subxids i j) e isRedo log).2 = none ∧
          setCommittedByPages subxids nsubxids e isRedo i log =
            let rest := setCommittedByPages subxids nsubxids e isRedo j
              (setCommittedWithinAPage (slice subxids i j) e isRedo log).1
            ⟨rest.log, rest.error, slice subxids i j :: rest.groups,
              i :: reads ++ rest.reads⟩)) := by
  obtain ⟨-, hle, hpage, hstop, hreads⟩ := pageRun_spec subxids
    (transactionIdToPage (subxids i)) hi.le
  refine ⟨_, _, ⟨lt_pageRun subxids hi, hle, fun x hx => ?_, hstop, hreads⟩, ?_⟩
  · obtain ⟨k, hik, hkj, rfl⟩ := mem_slice.mp hx
    exact hpage k hik hkj
  · rw [setCommittedByPages, dif_pos hi]
    dsimp only
    cases (setCommittedWithinAPage (slice subxids i
      (pageRun subxids nsubxids (transactionIdToPage (subxids i)) i).1) e isRedo log).2 with
    | none => exact .inr ⟨rfl, rfl⟩
    | some error => exact .inl ⟨error, rfl, rfl⟩

theorem setCommittedByPages_of_not_lt (hi : ¬ i < nsubxids) :
    setCommittedByPages subxids nsubxids e isRedo i log = ⟨log, none, [], []⟩ := by
  rw [setCommittedByPages, dif_neg hi]

/-- **An error is raised exactly when some id has another entry.** -/
theorem setCommittedByPages_error (hi : i ≤ nsubxids) :
    (setCommittedByPages subxids nsubxids e isRedo i log).error = none ↔
      ∀ x ∈ slice subxids i nsubxids, ¬ Conflicts log isRedo e x := by
  induction hd : nsubxids - i using Nat.strong_induction_on generalizing i log with
  | _ d ih =>
    rcases Nat.lt_or_ge i nsubxids with hlt | hge
    · obtain ⟨j, reads, hround, hcase⟩ := setCommittedByPages_of_lt subxids e isRedo log hlt
      have hne := slice_ne_nil subxids hround.lt
      have hmem := setCommittedWithinAPage_error e isRedo log hne
        hround.page
      rw [slice_append subxids hround.lt.le hround.le, List.forall_mem_append, ← hmem]
      obtain ⟨error, hsome, heq⟩ | ⟨hnone, heq⟩ := hcase
      · rw [heq, hsome]
        simp
      · have hlt := hround.lt
        rw [heq, hnone]
        dsimp only
        rw [ih (nsubxids - j) (by omega) hround.le rfl]
        have hconf : ∀ x, Conflicts (setCommittedWithinAPage (slice subxids i j) e isRedo log).1
            isRedo e x ↔ Conflicts log isRedo e x := fun x =>
          conflicts_setCommittedWithinAPage hne hround.page hnone
        simp only [hconf, true_and]
    · obtain rfl : i = nsubxids := by omega
      rw [setCommittedByPages_of_not_lt (lt_irrefl i), slice_self]
      simp

/-- The indices read are indices of the array only when the loop does not get to its end. -/
theorem setCommittedByPages_reads (hi : i ≤ nsubxids) :
    (∀ k ∈ (setCommittedByPages subxids nsubxids e isRedo i log).reads, k < nsubxids) ↔
      i = nsubxids ∨ ∃ k k', i ≤ k ∧ k < k' ∧ k' < nsubxids ∧
        transactionIdToPage (subxids k') ≠ transactionIdToPage (subxids k) ∧
        Conflicts log isRedo e (subxids k) := by
  induction hd : nsubxids - i using Nat.strong_induction_on generalizing i log with
  | _ d ih =>
    rcases Nat.lt_or_ge i nsubxids with hlt | hge
    · obtain ⟨j, reads, hround, hcase⟩ := setCommittedByPages_of_lt subxids e isRedo log hlt
      have hij := hround.lt
      have hjn := hround.le
      have hne := slice_ne_nil subxids hij
      have hin : i ≠ nsubxids := hlt.ne
      have hpage : ∀ k, i ≤ k → k < j →
          transactionIdToPage (subxids k) = transactionIdToPage (subxids i) :=
        fun k hik hkj => hround.page _ (mem_slice.mpr ⟨k, hik, hkj, rfl⟩)
      -- the first group reads up to the index behind it
      have hreads : (∀ k ∈ i :: reads, k < nsubxids) ↔ j < nsubxids := by
        refine ⟨fun h => h j ?_, fun h k hk => ?_⟩
        · exact List.mem_cons_of_mem _ ((hround.reads j).mpr ⟨hij.le, le_rfl⟩)
        · rcases List.mem_cons.mp hk with rfl | hk
          · exact hlt
          · have := (hround.reads k).mp hk
            omega
      have hmem := setCommittedWithinAPage_error e isRedo log hne
        hround.page
      obtain ⟨error, hsome, heq⟩ | ⟨hnone, heq⟩ := hcase
      · rw [heq]
        dsimp only
        rw [hreads]
        constructor
        · intro hj
          have hsomex : ∃ x ∈ slice subxids i j, Conflicts log isRedo e x := by
            by_contra hno
            push Not at hno
            rw [hmem.mpr hno] at hsome
            cases hsome
          obtain ⟨x, hx, hc⟩ := hsomex
          obtain ⟨k, hik, hkj, rfl⟩ := mem_slice.mp hx
          refine .inr ⟨k, j, hik, hkj, hj, ?_, hc⟩
          rw [hpage k hik hkj]
          exact hround.stop hj
        · rintro (h | ⟨k, k', hik, hkk', hk'n, hdiff, -⟩)
          · exact absurd h hin
          · by_contra hj
            exact hdiff ((hpage k' (by omega) (by omega)).trans (hpage k hik (by omega)).symm)
      · have hno := hmem.mp hnone
        have hconf : ∀ x, Conflicts (setCommittedWithinAPage (slice subxids i j) e isRedo log).1
            isRedo e x ↔ Conflicts log isRedo e x := fun x =>
          conflicts_setCommittedWithinAPage hne hround.page hnone
        rw [heq]
        dsimp only
        rw [List.forall_mem_append, hreads, ih (nsubxids - j) (by omega) hjn rfl]
        simp only [hconf]
        constructor
        · rintro ⟨hj, h | ⟨k, k', hjk, h⟩⟩
          · exact absurd h hj.ne
          · exact .inr ⟨k, k', hij.le.trans hjk, h⟩
        · rintro (h | ⟨k, k', hik, hkk', hk'n, hdiff, hc⟩)
          · exact absurd h hin
          · have hjk : j ≤ k := by
              by_contra hkj
              exact hno _ (mem_slice.mpr ⟨k, hik, not_le.mp hkj, rfl⟩) hc
            exact ⟨by omega, .inr ⟨k, k', hjk, hkk', hk'n, hdiff, hc⟩⟩
    · obtain rfl : i = nsubxids := by omega
      rw [setCommittedByPages_of_not_lt (lt_irrefl i)]
      simp

/-- Every group is on one page, and without an error the groups are the array. -/
theorem setCommittedByPages_groups (subxids : ℕ → ℕ) (e : DistributedLogEntry)
    (isRedo : Bool) (log : LogPages) (hi : i ≤ nsubxids) :
    (∀ g ∈ (setCommittedByPages subxids nsubxids e isRedo i log).groups,
      ∀ x ∈ g, ∀ y ∈ g, transactionIdToPage x = transactionIdToPage y) ∧
    ((setCommittedByPages subxids nsubxids e isRedo i log).error = none →
      (setCommittedByPages subxids nsubxids e isRedo i log).groups.flatten =
        slice subxids i nsubxids) := by
  induction hd : nsubxids - i using Nat.strong_induction_on generalizing i log with
  | _ d ih =>
    rcases Nat.lt_or_ge i nsubxids with hlt | hge
    · obtain ⟨j, reads, hround, hcase⟩ := setCommittedByPages_of_lt subxids e isRedo log hlt
      have hij := hround.lt
      have hsame : ∀ x ∈ slice subxids i j, ∀ y ∈ slice subxids i j,
          transactionIdToPage x = transactionIdToPage y := fun x hx y hy =>
        (hround.page x hx).trans (hround.page y hy).symm
      obtain ⟨error, hsome, heq⟩ | ⟨hnone, heq⟩ := hcase
      · rw [heq]
        refine ⟨fun g hg => ?_, fun h => by cases h⟩
        rw [List.mem_singleton.mp hg]
        exact hsame
      · rw [heq]
        dsimp only
        obtain ⟨hgroups, hflatten⟩ := ih (nsubxids - j) (by omega)
          (setCommittedWithinAPage (slice subxids i j) e isRedo log).1 hround.le rfl
        refine ⟨fun g hg => ?_, fun h => ?_⟩
        · rcases List.mem_cons.mp hg with rfl | hg
          · exact hsame
          · exact hgroups g hg
        · rw [List.flatten_cons, hflatten h, ← slice_append subxids hij.le hround.le]
    · obtain rfl : i = nsubxids := by omega
      rw [setCommittedByPages_of_not_lt (lt_irrefl i), slice_self]
      simp

/-- Past an id that has another entry none is reached. -/
theorem mem_of_mem_takeWhile_append {α : Type*} {p : α → Bool} {xs ys : List α} {x c : α}
    (hc : c ∈ xs) (hp : p c = false) (hx : x ∈ (xs ++ ys).takeWhile p) : x ∈ xs := by
  induction xs with
  | nil => cases hc
  | cons a xs ih =>
    rw [List.cons_append, List.takeWhile_cons] at hx
    split_ifs at hx with ha
    · rcases List.mem_cons.mp hx with rfl | hx
      · exact List.mem_cons_self
      · rcases List.mem_cons.mp hc with rfl | hc
        · rw [hp] at ha
          cases ha
        · exact List.mem_cons_of_mem _ (ih hc hx)
    · cases hx

/-- The ids of a list that are reached: those before the first one that has another entry. -/
def reached (log : LogPages) (isRedo : Bool) (e : DistributedLogEntry) (xs : List ℕ) : List ℕ :=
  xs.takeWhile fun x => decide (¬ Conflicts log isRedo e x)

/-- Some id of the list is reached on the page of `y`, and the page is zeroed for it. -/
def Wiped (log : LogPages) (isRedo : Bool) (e : DistributedLogEntry) (xs : List ℕ) (y : ℕ) :
    Prop :=
  ∃ x ∈ reached log isRedo e xs, Zeroed log isRedo (transactionIdToPage x) ∧
    transactionIdToPage y = transactionIdToPage x

instance (xs : List ℕ) (y : ℕ) : Decidable (Wiped log isRedo e xs y) :=
  inferInstanceAs (Decidable (∃ x ∈ reached log isRedo e xs, _))

/-- A group without a conflict, and then other ids. -/
theorem wiped_append {group : List ℕ} {page : ℕ} (xs : List ℕ) (y : ℕ) (hne : group ≠ [])
    (hpage : ∀ x ∈ group, transactionIdToPage x = page)
    (hno : ∀ x ∈ group, ¬ Conflicts log isRedo e x) :
    Wiped log isRedo e (group ++ xs) y ↔
      (Zeroed log isRedo page ∧ transactionIdToPage y = page) ∨ Wiped log isRedo e xs y := by
  have hall : ∀ x ∈ group, decide (¬ Conflicts log isRedo e x) = true :=
    fun x hx => decide_eq_true (hno x hx)
  rw [Wiped, Wiped, reached, reached, List.takeWhile_append_of_pos hall]
  obtain ⟨a, ha⟩ := List.exists_mem_of_ne_nil group hne
  constructor
  · rintro ⟨x, hx, hz, hy⟩
    rcases List.mem_append.mp hx with hx | hx
    · exact .inl (hpage x hx ▸ ⟨hz, hy⟩)
    · exact .inr ⟨x, hx, hz, hy⟩
  · rintro (h | ⟨x, hx, h⟩)
    · exact ⟨a, List.mem_append_left _ ha, by rw [hpage a ha]; exact h⟩
    · exact ⟨x, List.mem_append_right _ hx, h⟩

/-- A group with a conflict is on a page that is not zeroed, and the last one reached. -/
theorem not_wiped_append {group xs : List ℕ} {page y c : ℕ}
    (hpage : ∀ x ∈ group, transactionIdToPage x = page) (hc : c ∈ group)
    (hconf : Conflicts log isRedo e c) : ¬ Wiped log isRedo e (group ++ xs) y := by
  rintro ⟨x, hx, hz, -⟩
  have hxg := mem_of_mem_takeWhile_append hc (decide_eq_false (not_not.mpr hconf)) hx
  exact hconf.1 (by rw [hpage c hc, ← hpage x hxg]; exact hz)

theorem wiped_setCommittedWithinAPage {group xs : List ℕ} {page y : ℕ} (hne : group ≠ [])
    (hpage : ∀ x ∈ group, transactionIdToPage x = page)
    (hnone : (setCommittedWithinAPage group e isRedo log).2 = none) :
    Wiped (setCommittedWithinAPage group e isRedo log).1 isRedo e xs y ↔
      Wiped log isRedo e xs y := by
  have hconf : ∀ x, Conflicts (setCommittedWithinAPage group e isRedo log).1 isRedo e x ↔
      Conflicts log isRedo e x := fun x => conflicts_setCommittedWithinAPage hne hpage hnone
  have hphysical := setCommittedWithinAPage_physical e isRedo log hne
    hpage
  simp only [Wiped, reached, hconf, Zeroed, hphysical]

/-- **The entry of an id that is not listed** is as before, or its page was zeroed. -/
theorem setCommittedByPages_other {y : ℕ} (hi : i ≤ nsubxids) (hy : y ∉ slice subxids i nsubxids) :
    (setCommittedByPages subxids nsubxids e isRedo i log).log.entry y =
      if Wiped log isRedo e (slice subxids i nsubxids) y then zeroEntry else log.entry y := by
  induction hd : nsubxids - i using Nat.strong_induction_on generalizing i log with
  | _ d ih =>
    rcases Nat.lt_or_ge i nsubxids with hlt | hge
    · obtain ⟨j, reads, hround, hcase⟩ := setCommittedByPages_of_lt subxids e isRedo log hlt
      have hij := hround.lt
      have hne := slice_ne_nil subxids hij
      have happend := slice_append subxids hij.le hround.le
      rw [happend] at hy ⊢
      rw [List.mem_append, not_or] at hy
      have hother := setCommittedWithinAPage_other e isRedo log hne
        hround.page hy.1
      have hmem := setCommittedWithinAPage_error e isRedo log hne
        hround.page
      obtain ⟨error, hsome, heq⟩ | ⟨hnone, heq⟩ := hcase
      · have hsomex : ∃ x ∈ slice subxids i j, Conflicts log isRedo e x := by
          by_contra hno
          push Not at hno
          rw [hmem.mpr hno] at hsome
          cases hsome
        obtain ⟨c, hc, hconf⟩ := hsomex
        have hz : ¬ Zeroed log isRedo (transactionIdToPage (subxids i)) :=
          hround.page c hc ▸ hconf.1
        rw [heq, if_neg (not_wiped_append hround.page hc hconf)]
        dsimp only
        rw [hother, if_neg fun h => hz h.1]
      · have hwiped := wiped_append (slice subxids j nsubxids) y hne hround.page
          (hmem.mp hnone)
        rw [heq]
        dsimp only
        rw [ih (nsubxids - j) (by omega) hround.le hy.2 rfl, hother]
        simp only [hwiped, wiped_setCommittedWithinAPage hne hround.page hnone]
        split_ifs <;> tauto
    · obtain rfl : i = nsubxids := by omega
      rw [setCommittedByPages_of_not_lt (lt_irrefl i), slice_self, if_neg]
      rintro ⟨x, hx, -⟩
      cases hx

/-- **Where no page is zeroed the groups write what the ids one after the other would.** -/
theorem setCommittedByPages_eq (hi : i ≤ nsubxids)
    (hz : ∀ x ∈ slice subxids i nsubxids, ¬ Zeroed log isRedo (transactionIdToPage x)) :
    (setCommittedByPages subxids nsubxids e isRedo i log).log =
      { log with entry := (putAll zeroEntry e log.entry (slice subxids i nsubxids)).1 } ∧
    (setCommittedByPages subxids nsubxids e isRedo i log).error =
      (putAll zeroEntry e log.entry (slice subxids i nsubxids)).2.map
        (logError (putAll zeroEntry e log.entry (slice subxids i nsubxids)).1 e) := by
  induction hd : nsubxids - i using Nat.strong_induction_on generalizing i log with
  | _ d ih =>
    rcases Nat.lt_or_ge i nsubxids with hlt | hge
    · obtain ⟨j, reads, hround, hcase⟩ := setCommittedByPages_of_lt subxids e isRedo log hlt
      have hij := hround.lt
      have hne := slice_ne_nil subxids hij
      have happend := slice_append subxids hij.le hround.le
      rw [happend] at hz ⊢
      rw [List.forall_mem_append] at hz
      have hzpage : ¬ Zeroed log isRedo (transactionIdToPage (subxids i)) :=
        hz.1 _ (mem_slice.mpr ⟨i, le_rfl, hij, rfl⟩)
      rw [setCommittedWithinAPage_of_not_zeroed hne hround.page hzpage] at hcase
      obtain ⟨error, hsome, heq⟩ | ⟨hnone, heq⟩ := hcase
      · obtain ⟨a, ha, -⟩ := Option.map_eq_some_iff.mp hsome
        rw [heq, putAll_append_of_some ha]
        exact ⟨rfl, hsome.symm⟩
      · rw [Option.map_eq_none_iff] at hnone
        rw [heq, putAll_append hnone]
        exact ih (nsubxids - j) (by omega) hround.le hz.2 rfl
    · obtain rfl : i = nsubxids := by omega
      rw [setCommittedByPages_of_not_lt (lt_irrefl i), slice_self]
      exact ⟨rfl, rfl⟩

end Groups

/-! ## The tree -/

section Tree

variable {xid nxids : ℕ} {xids : ℕ → ℕ} {e : DistributedLogEntry} {isRedo : Bool} {log : LogPages}

/-- The transaction and its subtransactions. -/
def tree (xid nxids : ℕ) (xids : ℕ → ℕ) : List ℕ := xid :: slice xids 0 nxids

/-- The call on a segment. -/
def record (xid nxids : ℕ) (xids : ℕ → ℕ) (e : DistributedLogEntry) (isRedo : Bool)
    (log : LogPages) : TreeResult :=
  setCommittedTree false xid nxids xids e isRedo log

/-- What the log has after the call, and which groups it was handed in. -/
structure TouchesListed (xid nxids : ℕ) (xids : ℕ → ℕ) (e : DistributedLogEntry) (isRedo : Bool)
    (log : LogPages) : Prop where
  groups : ∀ g ∈ (record xid nxids xids e isRedo log).groups,
    ∀ x ∈ g, ∀ y ∈ g, transactionIdToPage x = transactionIdToPage y
  flatten : (record xid nxids xids e isRedo log).error = none →
    (record xid nxids xids e isRedo log).groups.flatten = tree xid nxids xids
  entries : (record xid nxids xids e isRedo log).error = none →
    ∀ x ∈ tree xid nxids xids, (record xid nxids xids e isRedo log).log.entry x = e
  others : ∀ y, y ∉ tree xid nxids xids →
    (record xid nxids xids e isRedo log).log.entry y = log.entry y
  error : (record xid nxids xids e isRedo log).error ≠ none →
    ∃ x ∈ tree xid nxids xids, WriteOnce.Taken zeroEntry e log.entry x
  again : (record xid nxids xids e isRedo log).error = none →
    (record xid nxids xids e isRedo (record xid nxids xids e isRedo log).log).log =
      (record xid nxids xids e isRedo log).log ∧
    (record xid nxids xids e isRedo (record xid nxids xids e isRedo log).log).error = none

/-- A call touches exactly the ids listed, and reads only them. -/
structure RecordsTree (xid nxids : ℕ) (xids : ℕ → ℕ) (e : DistributedLogEntry) (isRedo : Bool)
    (log : LogPages) : Prop extends TouchesListed xid nxids xids e isRedo log where
  reads : ∀ k ∈ (record xid nxids xids e isRedo log).reads, k < nxids

theorem page_singleton (xid : ℕ) : ∀ x ∈ [xid], transactionIdToPage x = transactionIdToPage xid :=
  fun _ hx => congrArg _ (List.mem_singleton.mp hx)

/-- The entry of the transaction first, and then the subtransactions. -/
theorem record_cases (xid nxids : ℕ) (xids : ℕ → ℕ) (e : DistributedLogEntry) (isRedo : Bool)
    (log : LogPages) :
    (∃ error, (setCommittedWithinAPage [xid] e isRedo log).2 = some error ∧
      record xid nxids xids e isRedo log =
        ⟨(setCommittedWithinAPage [xid] e isRedo log).1, some error, [[xid]], []⟩) ∨
    ((setCommittedWithinAPage [xid] e isRedo log).2 = none ∧
      record xid nxids xids e isRedo log =
        let rest := setCommittedByPages xids nxids e isRedo 0
          (setCommittedWithinAPage [xid] e isRedo log).1
        ⟨rest.log, rest.error, [xid] :: rest.groups, rest.reads⟩) := by
  rw [record, setCommittedTree, if_neg Bool.false_ne_true]
  dsimp only
  cases (setCommittedWithinAPage [xid] e isRedo log).2 with
  | none => exact .inr ⟨rfl, rfl⟩
  | some error => exact .inl ⟨error, rfl, rfl⟩

theorem record_error :
    (record xid nxids xids e isRedo log).error = none ↔
      ∀ x ∈ tree xid nxids xids, ¬ Conflicts log isRedo e x := by
  have hmem := setCommittedWithinAPage_error e isRedo log (List.cons_ne_nil xid [])
    (page_singleton xid)
  rw [tree, ← List.singleton_append, List.forall_mem_append, ← hmem]
  obtain ⟨error, hsome, heq⟩ | ⟨hnone, heq⟩ := record_cases xid nxids xids e isRedo log
  · rw [heq, hsome]
    simp
  · have hconf : ∀ x, Conflicts (setCommittedWithinAPage [xid] e isRedo log).1 isRedo e x ↔
        Conflicts log isRedo e x := fun x =>
      conflicts_setCommittedWithinAPage (List.cons_ne_nil xid []) (page_singleton xid) hnone
    rw [heq, hnone]
    dsimp only
    rw [setCommittedByPages_error (Nat.zero_le nxids)]
    simp only [hconf, true_and]

theorem record_groups (xid nxids : ℕ) (xids : ℕ → ℕ) (e : DistributedLogEntry) (isRedo : Bool)
    (log : LogPages) :
    (∀ g ∈ (record xid nxids xids e isRedo log).groups,
      ∀ x ∈ g, ∀ y ∈ g, transactionIdToPage x = transactionIdToPage y) ∧
    ((record xid nxids xids e isRedo log).error = none →
      (record xid nxids xids e isRedo log).groups.flatten = tree xid nxids xids) := by
  have hsame : ∀ x ∈ [xid], ∀ y ∈ [xid], transactionIdToPage x = transactionIdToPage y :=
    fun x hx y hy => (page_singleton xid x hx).trans (page_singleton xid y hy).symm
  obtain ⟨error, -, heq⟩ | ⟨-, heq⟩ := record_cases xid nxids xids e isRedo log
  · rw [heq]
    refine ⟨fun g hg => ?_, fun h => by cases h⟩
    rw [List.mem_singleton.mp hg]
    exact hsame
  · obtain ⟨hgroups, hflatten⟩ := setCommittedByPages_groups xids e isRedo
      (setCommittedWithinAPage [xid] e isRedo log).1 (Nat.zero_le nxids)
    rw [heq]
    refine ⟨fun g hg => ?_, fun h => ?_⟩
    · rcases List.mem_cons.mp hg with rfl | hg
      · exact hsame
      · exact hgroups g hg
    · rw [List.flatten_cons, hflatten h, tree, List.singleton_append]

/-- The array is read past its end unless there is none, or an error comes before its last page. -/
theorem record_reads :
    (∀ k ∈ (record xid nxids xids e isRedo log).reads, k < nxids) ↔
      nxids = 0 ∨ Conflicts log isRedo e xid ∨ ∃ k k', k < k' ∧ k' < nxids ∧
        transactionIdToPage (xids k') ≠ transactionIdToPage (xids k) ∧
        Conflicts log isRedo e (xids k) := by
  have hmem := setCommittedWithinAPage_error e isRedo log (List.cons_ne_nil xid [])
    (page_singleton xid)
  rw [List.forall_mem_singleton] at hmem
  obtain ⟨error, hsome, heq⟩ | ⟨hnone, heq⟩ := record_cases xid nxids xids e isRedo log
  · have hconf : Conflicts log isRedo e xid := by
      by_contra hno
      rw [hmem.mpr hno] at hsome
      cases hsome
    rw [heq]
    simp [hconf]
  · have hconf : ∀ x, Conflicts (setCommittedWithinAPage [xid] e isRedo log).1 isRedo e x ↔
        Conflicts log isRedo e x := fun x =>
      conflicts_setCommittedWithinAPage (List.cons_ne_nil xid []) (page_singleton xid) hnone
    have hxid := hmem.mp hnone
    rw [heq]
    dsimp only
    rw [setCommittedByPages_reads (Nat.zero_le nxids)]
    simp only [hconf, hxid, Nat.zero_le, true_and, false_or, eq_comm (a := 0)]

theorem record_other {y : ℕ} (hy : y ∉ tree xid nxids xids) :
    (record xid nxids xids e isRedo log).log.entry y =
      if Wiped log isRedo e (tree xid nxids xids) y then zeroEntry else log.entry y := by
  rw [tree, ← List.singleton_append] at hy ⊢
  rw [List.mem_append, not_or] at hy
  have hne := List.cons_ne_nil xid []
  have hmem := setCommittedWithinAPage_error e isRedo log hne
    (page_singleton xid)
  have hother := setCommittedWithinAPage_other e isRedo log hne
    (page_singleton xid) hy.1
  obtain ⟨error, hsome, heq⟩ | ⟨hnone, heq⟩ := record_cases xid nxids xids e isRedo log
  · have hconf : Conflicts log isRedo e xid := by
      by_contra hno
      rw [hmem.mpr (List.forall_mem_singleton.mpr hno)] at hsome
      cases hsome
    rw [heq, if_neg (not_wiped_append (page_singleton xid) List.mem_cons_self hconf)]
    dsimp only
    rw [hother, if_neg fun h => hconf.1 h.1]
  · have hwiped := wiped_append (slice xids 0 nxids) y hne (page_singleton xid)
      (hmem.mp hnone)
    rw [heq]
    dsimp only
    rw [setCommittedByPages_other (Nat.zero_le nxids) hy.2, hother]
    simp only [hwiped, wiped_setCommittedWithinAPage hne (page_singleton xid) hnone]
    split_ifs <;> tauto

theorem record_error_taken (h : (record xid nxids xids e isRedo log).error ≠ none) :
    ∃ x ∈ tree xid nxids xids, WriteOnce.Taken zeroEntry e log.entry x := by
  rw [ne_eq, record_error] at h
  push Not at h
  obtain ⟨x, hx, hconf⟩ := h
  exact ⟨x, hx, hconf.2⟩

/-! ### Where no page is zeroed -/

theorem record_eq (e : DistributedLogEntry) (isRedo : Bool) (log : LogPages)
    (hz : ∀ x ∈ tree xid nxids xids, ¬ Zeroed log isRedo (transactionIdToPage x)) :
    (record xid nxids xids e isRedo log).log =
      { log with entry := (putAll zeroEntry e log.entry (tree xid nxids xids)).1 } ∧
    (record xid nxids xids e isRedo log).error =
      (putAll zeroEntry e log.entry (tree xid nxids xids)).2.map
        (logError (putAll zeroEntry e log.entry (tree xid nxids xids)).1 e) := by
  rw [tree, ← List.singleton_append] at hz ⊢
  rw [List.forall_mem_append, List.forall_mem_singleton] at hz
  have hcases := record_cases xid nxids xids e isRedo log
  rw [setCommittedWithinAPage_of_not_zeroed (List.cons_ne_nil xid []) (page_singleton xid) hz.1]
    at hcases
  obtain ⟨error, hsome, heq⟩ | ⟨hnone, heq⟩ := hcases
  · obtain ⟨a, ha, -⟩ := Option.map_eq_some_iff.mp hsome
    rw [heq, putAll_append_of_some ha]
    exact ⟨rfl, hsome.symm⟩
  · rw [Option.map_eq_none_iff] at hnone
    rw [heq, putAll_append hnone]
    exact setCommittedByPages_eq (Nat.zero_le nxids) hz.2

/-- **Where no page is zeroed a call touches the ids listed**, whatever their number and order. -/
theorem touchesListed_of_not_zeroed
    (hz : ∀ x ∈ tree xid nxids xids, ¬ Zeroed log isRedo (transactionIdToPage x)) :
    TouchesListed xid nxids xids e isRedo log := by
  obtain ⟨hlog, herror⟩ := record_eq e isRedo log hz
  obtain ⟨hgroups, hflatten⟩ := record_groups xid nxids xids e isRedo log
  refine ⟨hgroups, hflatten, fun hnone x hx => ?_, fun y hy => ?_, record_error_taken,
    fun hnone => ?_⟩
  · rw [herror, Option.map_eq_none_iff] at hnone
    rw [hlog]
    exact putAll_mem hnone hx
  · rw [hlog]
    exact putAll_unchanged hy
  · rw [herror, Option.map_eq_none_iff] at hnone
    rw [hlog]
    obtain ⟨hlog', herror'⟩ := record_eq e isRedo
      { log with entry := (putAll zeroEntry e log.entry (tree xid nxids xids)).1 } hz
    rw [hlog', herror', putAll_again, hnone]
    exact ⟨rfl, rfl⟩

/-! ### The array -/

/-- A transaction without subtransactions. -/
theorem record_zero :
    record xid 0 xids e isRedo log = ⟨(setCommittedWithinAPage [xid] e isRedo log).1,
      (setCommittedWithinAPage [xid] e isRedo log).2, [[xid]], []⟩ := by
  obtain ⟨error, hsome, heq⟩ | ⟨hnone, heq⟩ := record_cases xid 0 xids e isRedo log
  · rw [heq, hsome]
  · rw [heq, setCommittedByPages_of_not_lt (lt_irrefl 0), hnone]

/-- **When a call touches and reads only what is listed**: there are no subtransactions, or an
error comes before the last page of the array, and no entry of another id is on a page zeroed. -/
theorem recordsTree_iff (xid nxids : ℕ) (xids : ℕ → ℕ) (e : DistributedLogEntry) (isRedo : Bool)
    (log : LogPages) :
    RecordsTree xid nxids xids e isRedo log ↔
      (nxids = 0 ∨ Conflicts log isRedo e xid ∨ ∃ k k', k < k' ∧ k' < nxids ∧
        transactionIdToPage (xids k') ≠ transactionIdToPage (xids k) ∧
        Conflicts log isRedo e (xids k)) ∧
      ∀ x ∈ reached log isRedo e (tree xid nxids xids), Zeroed log isRedo (transactionIdToPage x) →
        ∀ y, transactionIdToPage y = transactionIdToPage x → y ∉ tree xid nxids xids →
          log.entry y = zeroEntry := by
  constructor
  · rintro ⟨htouches, hreads⟩
    refine ⟨record_reads.mp hreads, fun x hx hz y hpage hy => ?_⟩
    have hsame := htouches.others y hy
    rw [record_other hy, if_pos ⟨x, hx, hz, hpage⟩] at hsame
    exact hsame.symm
  · rintro ⟨hreads, hzeros⟩
    obtain ⟨hgroups, hflatten⟩ := record_groups xid nxids xids e isRedo log
    -- a call that gets to its end has no subtransactions
    have hzero : (record xid nxids xids e isRedo log).error = none → nxids = 0 := by
      intro hnone
      have hno := record_error.mp hnone
      obtain h | h | ⟨k, k', hlt, hlen, -, h⟩ := hreads
      · exact h
      · exact absurd h (hno xid List.mem_cons_self)
      · refine absurd h (hno _ (List.mem_cons_of_mem _ (mem_slice.mpr ⟨k, ?_⟩)))
        exact ⟨Nat.zero_le k, by omega, rfl⟩
    refine ⟨⟨hgroups, hflatten, fun hnone => ?_, fun y hy => ?_, record_error_taken,
      fun hnone => ?_⟩, record_reads.mpr hreads⟩
    · obtain rfl := hzero hnone
      rw [record_zero] at hnone ⊢
      rw [tree, slice_self, List.forall_mem_singleton]
      exact setCommittedWithinAPage_mem (List.cons_ne_nil xid []) (page_singleton xid) hnone
        List.mem_cons_self
    · rw [record_other hy]
      split_ifs with hw
      · obtain ⟨x, hx, hz, hpage⟩ := hw
        exact (hzeros x hx hz y hpage hy).symm
      · rfl
    · obtain rfl := hzero hnone
      rw [record_zero] at hnone ⊢
      dsimp only at hnone ⊢
      rw [record_zero, setCommittedWithinAPage_again (List.cons_ne_nil xid []) (page_singleton xid)
        hnone]
      exact ⟨rfl, hnone⟩

/-- A log of zeros, all of it on disk. -/
def zeroLog : LogPages := ⟨fun _ => zeroEntry, fun _ => true⟩

/-- One subtransaction: the array is read at index 1. -/
theorem one_subxid_reads_past :
    ¬ RecordsTree 100 1 (fun _ => 101) ⟨7, 9⟩ false zeroLog := by
  intro h
  have hno : ∀ x, ¬ Conflicts zeroLog false ⟨7, 9⟩ x := fun x hc => hc.2.1 rfl
  obtain hn | hc | ⟨k, k', -, -, -, hc⟩ := record_reads.mp h.reads
  · exact absurd hn one_ne_zero
  · exact hno _ hc
  · exact hno _ hc

end Tree

end Hdb.Dtx
