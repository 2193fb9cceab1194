import Hdb.AppendOnly.Segfile
import Mathlib.Data.Finset.Card
import Mathlib.Data.Finset.Image

/-!
# States, owners and users of segment files

A segment file has an owner exactly when it is in use, and `txns_using_rel` counts the owners. Every
change of a state is one of those that `appendonlywriter.h` lists.

Three calls can break this (`callOk`). `SetSegnoForWrite` counts the transaction before it knows
whether there is a file for it. `SetSegnoForCompaction` takes segment file 0, when that awaits a
drop, for no file at all, and marks the file it finds instead as if that awaited the drop. And when
the entry of the table has been thrown away between the compaction and the drop, the files to drop
are not in the state that the drop starts from.
-/

namespace Hdb.AppendOnly

open Dtx

/-! ## Invariant -/

def AOSegfileState.inUse : AOSegfileState → Bool
  | .insertUse | .compactionUse | .dropUse | .pseudoCompactionUse | .compactedDropSkipped => true
  | _ => false

/-- The transitions of `appendonlywriter.h`. -/
def validTransition : AOSegfileState → AOSegfileState → Bool
  | .available, .insertUse => true
  | .available, .compactionUse => true
  | .awaitingDropReady, .pseudoCompactionUse => true
  | .insertUse, .available => true
  | .compactionUse, .compactedAwaitingDrop => true
  | .compactionUse, .available => true
  | .dropUse, .available => true
  | .dropUse, .awaitingDropReady => true
  | .compactedAwaitingDrop, .dropUse => true
  | .compactedAwaitingDrop, .pseudoCompactionUse => true
  | .compactedAwaitingDrop, .compactedDropSkipped => true
  | .pseudoCompactionUse, .compactedAwaitingDrop => true
  | .pseudoCompactionUse, .awaitingDropReady => true
  | .compactedDropSkipped, .awaitingDropReady => true
  | _, _ => false

/-- Every file keeps its state or makes a transition. -/
def Moves (entry entry' : AORelHashEntryData) : Prop :=
  ∀ i < maxAorelConcurrency, (entry'.relsegfiles i).state = (entry.relsegfiles i).state ∨
    validTransition (entry.relsegfiles i).state (entry'.relsegfiles i).state = true

/-- The transactions that own a file of the table. -/
def owners (entry : AORelHashEntryData) : Finset Nat :=
  ((Finset.range maxAorelConcurrency).image fun i => (entry.relsegfiles i).xid).erase
    invalidTransactionId

/-- A file that a transaction in this phase may own. -/
def XactPhase.mayOwn (phase : XactPhase) (relid segno : Nat) (file : AOSegfileStatus) : Prop :=
  match phase with
  | .idle => False
  | .inserting => file.state = .insertUse ∧ file.isfull = false ∧ 1 ≤ segno
  | .compacting relid' segno' => file.state = .compactionUse ∧ relid = relid' ∧ segno = segno'
  | .vacuumed => True
  | .ended => True

structure EntryInv (xacts : List Xact) (entry : AORelHashEntryData) : Prop where
  inUse : ∀ i < maxAorelConcurrency, (entry.relsegfiles i).xid ≠ invalidTransactionId ↔
    (entry.relsegfiles i).state.inUse = true
  owner : ∀ i < maxAorelConcurrency, (entry.relsegfiles i).xid ≠ invalidTransactionId →
    ∃ x ∈ xacts, x.xid = (entry.relsegfiles i).xid ∧ x.appendOnlyInsertXact = true ∧
      x.phase.mayOwn entry.relid i (entry.relsegfiles i)
  users : entry.txnsUsingRel = (owners entry).card

structure WriterInv (st : WriterState) : Prop where
  xids : (st.xacts.map (·.xid)).Nodup
  valid : ∀ x ∈ st.xacts, x.xid ≠ invalidTransactionId
  relids : (st.hash.map (·.relid)).Nodup
  entries : ∀ entry ∈ st.hash, EntryInv st.xacts entry
  compacting : ∀ x ∈ st.xacts, ∀ relid segno, x.phase = .compacting relid segno →
    ∃ entry ∈ st.hash, entry.relid = relid ∧ segno < maxAorelConcurrency ∧
      (entry.relsegfiles segno).xid = x.xid

/-! ## Entries -/

section

variable {xacts xacts' : List Xact} {entry entry' : AORelHashEntryData} {x x' : Xact}

theorem mem_owners {xid : Nat} : xid ∈ owners entry ↔
    xid ≠ invalidTransactionId ∧ ∃ i < maxAorelConcurrency, (entry.relsegfiles i).xid = xid := by
  rw [owners, Finset.mem_erase, Finset.mem_image]
  simp only [Finset.mem_range]

theorem Moves.refl (entry : AORelHashEntryData) : Moves entry entry := fun _ _ => .inl rfl

theorem usedBy_iff {xid : Nat} (h : xid ≠ invalidTransactionId) :
    entry.usedBy xid = true ↔ xid ∈ owners entry := by
  rw [mem_owners, AORelHashEntryData.usedBy, List.any_eq_true]
  simp only [List.mem_range, beq_iff_eq]
  exact ⟨fun hex => ⟨h, hex⟩, fun hex => hex.2⟩

/-- An entry is in use while a transaction owns one of its files. -/
theorem EntryInv.txnsUsingRel_pos (h : EntryInv xacts entry) {i : Nat}
    (hi : i < maxAorelConcurrency) (hxid : (entry.relsegfiles i).xid ≠ invalidTransactionId) :
    0 < entry.txnsUsingRel := by
  rw [h.users]
  exact_mod_cast Finset.card_pos.mpr ⟨_, mem_owners.mpr ⟨hxid, i, hi, rfl⟩⟩

/-- The files have the same owners and states. -/
theorem EntryInv.congr (h : EntryInv xacts entry) (hrelid : entry'.relid = entry.relid)
    (htxns : entry'.txnsUsingRel = entry.txnsUsingRel)
    (hxid : ∀ i < maxAorelConcurrency, (entry'.relsegfiles i).xid = (entry.relsegfiles i).xid)
    (hstate : ∀ i < maxAorelConcurrency, (entry'.relsegfiles i).state = (entry.relsegfiles i).state)
    (hxacts : ∀ i < maxAorelConcurrency, ∀ x ∈ xacts, x.xid = (entry.relsegfiles i).xid →
      x.appendOnlyInsertXact = true → x.phase.mayOwn entry.relid i (entry.relsegfiles i) →
      ∃ x' ∈ xacts', x'.xid = x.xid ∧ x'.appendOnlyInsertXact = true ∧
        x'.phase.mayOwn entry.relid i (entry'.relsegfiles i)) :
    EntryInv xacts' entry' := by
  have howners : owners entry' = owners entry := by
    ext xid
    simp only [mem_owners]
    refine and_congr_right fun _ => exists_congr fun i => and_congr_right fun hi => ?_
    rw [hxid i hi]
  refine ⟨fun i hi => ?_, fun i hi hne => ?_, by rw [htxns, h.users, howners]⟩
  · rw [hxid i hi, hstate i hi]
    exact h.inUse i hi
  · rw [hxid i hi] at hne ⊢
    obtain ⟨x, hx, e₁, e₂, e₃⟩ := h.owner i hi hne
    obtain ⟨x', hx', f₁, f₂, f₃⟩ := hxacts i hi x hx e₁ e₂ e₃
    rw [hrelid]
    exact ⟨x', hx', f₁.trans e₁, f₂, f₃⟩

/-- The transaction takes files that nobody else owns. The other ones stay as they are, and the
transaction is counted once. -/
structure Taken (x' : Xact) (entry entry' : AORelHashEntryData) : Prop where
  relid : entry'.relid = entry.relid
  files : ∀ i < maxAorelConcurrency,
    ((entry'.relsegfiles i).xid = (entry.relsegfiles i).xid ∧
      (entry'.relsegfiles i).state = (entry.relsegfiles i).state ∧
      (entry'.relsegfiles i).isfull = (entry.relsegfiles i).isfull) ∨
    (((entry.relsegfiles i).xid = invalidTransactionId ∨ (entry.relsegfiles i).xid = x'.xid) ∧
      (entry'.relsegfiles i).xid = x'.xid ∧ (entry'.relsegfiles i).state.inUse = true ∧
      x'.phase.mayOwn entry.relid i (entry'.relsegfiles i))
  taken : ∃ i < maxAorelConcurrency, (entry'.relsegfiles i).xid = x'.xid
  users : entry'.txnsUsingRel =
    if x'.xid ∈ owners entry then entry.txnsUsingRel else entry.txnsUsingRel + 1

theorem EntryInv.take (h : EntryInv xacts entry) (htake : Taken x' entry entry')
    (hvalid : x'.xid ≠ invalidTransactionId) (hx' : x' ∈ xacts')
    (hflag : x'.appendOnlyInsertXact = true)
    (hxacts : ∀ i < maxAorelConcurrency, ∀ x ∈ xacts, x.xid = (entry.relsegfiles i).xid →
      x.appendOnlyInsertXact = true → x.phase.mayOwn entry.relid i (entry.relsegfiles i) →
      ∃ x' ∈ xacts', x'.xid = x.xid ∧ x'.appendOnlyInsertXact = true ∧
        x'.phase.mayOwn entry.relid i (entry.relsegfiles i)) :
    EntryInv xacts' entry' := by
  obtain ⟨hrelid, hfiles, htaken, htxns⟩ := htake
  have howners : owners entry' = insert x'.xid (owners entry) := by
    ext xid
    rw [Finset.mem_insert, mem_owners, mem_owners]
    constructor
    · rintro ⟨hne, i, hi, rfl⟩
      rcases hfiles i hi with ⟨hsame, -⟩ | ⟨-, hown, -⟩
      · exact .inr ⟨hne, i, hi, hsame.symm⟩
      · exact .inl hown
    · rintro (rfl | ⟨hne, i, hi, rfl⟩)
      · exact ⟨hvalid, htaken⟩
      · refine ⟨hne, i, hi, ?_⟩
        rcases hfiles i hi with ⟨hsame, -⟩ | ⟨hfree | hmine, hown, -⟩
        · exact hsame
        · exact absurd hfree hne
        · exact hown.trans hmine.symm
  refine ⟨fun i hi => ?_, fun i hi hne => ?_, ?_⟩
  · rcases hfiles i hi with ⟨hsame, hstate, -⟩ | ⟨-, hown, huse, -⟩
    · rw [hsame, hstate]
      exact h.inUse i hi
    · rw [hown]
      exact ⟨fun _ => huse, fun _ => hvalid⟩
  · rw [hrelid]
    rcases hfiles i hi with ⟨hsame, hstate, hfull⟩ | ⟨-, hown, -, hmay⟩
    · rw [hsame] at hne ⊢
      obtain ⟨y, hy, e₁, e₂, e₃⟩ := h.owner i hi hne
      obtain ⟨y', hy', f₁, f₂, f₃⟩ := hxacts i hi y hy e₁ e₂ e₃
      refine ⟨y', hy', f₁.trans e₁, f₂, ?_⟩
      cases hp : y'.phase <;> rw [hp] at f₃ <;> simp only [XactPhase.mayOwn] at f₃ ⊢
      · exact ⟨hstate.trans f₃.1, hfull.trans f₃.2.1, f₃.2.2⟩
      · exact ⟨hstate.trans f₃.1, f₃.2⟩
    · exact ⟨x', hx', hown.symm, hflag, hmay⟩
  · rw [htxns, howners, h.users]
    split_ifs with hmem
    · rw [Finset.insert_eq_of_mem hmem]
    · rw [Finset.card_insert_of_notMem hmem]
      push_cast
      rfl

theorem next_inUse (state : AOSegfileState) (aborted : Bool) :
    (state.next aborted).inUse = false := by
  cases state <;> cases aborted <;> rfl

theorem next_moves (state : AOSegfileState) (aborted : Bool) :
    state.next aborted = state ∨ validTransition state (state.next aborted) = true := by
  cases state <;> cases aborted <;> first | exact .inl rfl | exact .inr rfl

/-- **A transaction gives its files back.** -/
theorem EntryInv.release {xid : Nat} (h : EntryInv xacts entry)
    (hrelid : entry'.relid = entry.relid)
    (hfiles : ∀ i < maxAorelConcurrency, entry'.relsegfiles i =
      if (entry.relsegfiles i).xid = xid then atEOXactStateTransition (entry.relsegfiles i)
      else entry.relsegfiles i)
    (htxns : entry'.txnsUsingRel =
      if xid ∈ owners entry then entry.txnsUsingRel - 1 else entry.txnsUsingRel) :
    EntryInv (xacts.filter (·.xid != xid)) entry' := by
  have hreleased : ∀ i < maxAorelConcurrency, (entry.relsegfiles i).xid = xid →
      (entry'.relsegfiles i).xid = invalidTransactionId ∧
        (entry'.relsegfiles i).state.inUse = false := by
    intro i hi hown
    rw [hfiles i hi, if_pos hown]
    exact ⟨rfl, next_inUse ..⟩
  have howners : owners entry' = (owners entry).erase xid := by
    ext xid'
    rw [Finset.mem_erase, mem_owners, mem_owners]
    constructor
    · rintro ⟨hne, i, hi, rfl⟩
      by_cases hown : (entry.relsegfiles i).xid = xid
      · exact absurd (hreleased i hi hown).1 hne
      · rw [hfiles i hi, if_neg hown] at hne ⊢
        exact ⟨hown, hne, i, hi, rfl⟩
    · rintro ⟨hne', hne, i, hi, rfl⟩
      exact ⟨hne, i, hi, by rw [hfiles i hi, if_neg hne']⟩
  refine ⟨fun i hi => ?_, fun i hi hne => ?_, ?_⟩
  · by_cases hown : (entry.relsegfiles i).xid = xid
    · obtain ⟨hfree, hstate⟩ := hreleased i hi hown
      rw [hfree, hstate]
      exact ⟨fun hne => absurd rfl hne, nofun⟩
    · rw [hfiles i hi, if_neg hown]
      exact h.inUse i hi
  · by_cases hown : (entry.relsegfiles i).xid = xid
    · exact absurd (hreleased i hi hown).1 hne
    · rw [hfiles i hi, if_neg hown] at hne ⊢
      obtain ⟨x, hx, e₁, e₂, e₃⟩ := h.owner i hi hne
      refine ⟨x, List.mem_filter.mpr ⟨hx, ?_⟩, e₁, e₂, by rw [hrelid]; exact e₃⟩
      rw [bne_iff_ne, e₁]
      exact hown
  · rw [htxns, howners, h.users]
    split_ifs with hmem
    · have hpos := Finset.card_pos.mpr ⟨xid, hmem⟩
      rw [Finset.card_erase_of_mem hmem]
      omega
    · rw [Finset.erase_eq_of_notMem hmem]

theorem readFileSegInfo_notInUse {files : Nat → AOSegfileStatus}
    (h : ∀ i, (files i).xid = invalidTransactionId ∧ (files i).state.inUse = false)
    (awaitingDrop : List Nat) (infos : List FileSegInfo) (i : Nat) :
    (infos.foldl (readFileSegInfo awaitingDrop) files i).xid = invalidTransactionId ∧
      (infos.foldl (readFileSegInfo awaitingDrop) files i).state.inUse = false := by
  induction infos generalizing files with
  | nil => exact h i
  | cons info infos ih =>
    refine ih fun j => ?_
    rw [readFileSegInfo]
    by_cases hj : j = info.segno
    · subst hj
      rw [Function.update_self]
      refine ⟨(h _).1, ?_⟩
      dsimp only
      split_ifs
      · rfl
      · exact (h _).2
    · rw [Function.update_of_ne hj]
      exact h j

theorem entryInv_create (xacts : List Xact) (relid : Nat) (catalogs : Catalogs) :
    EntryInv xacts (aoRelCreateHashEntry relid catalogs) := by
  have hfile : ∀ i, ((aoRelCreateHashEntry relid catalogs).relsegfiles i).xid =
      invalidTransactionId ∧
        ((aoRelCreateHashEntry relid catalogs).relsegfiles i).state.inUse = false :=
    readFileSegInfo_notInUse (fun _ => ⟨rfl, rfl⟩) catalogs.awaitingDrop catalogs.fileSegs
  refine ⟨fun i _ => ?_, fun i _ hne => absurd (hfile i).1 hne, ?_⟩
  · rw [(hfile i).1, (hfile i).2]
    exact ⟨fun hne => absurd rfl hne, nofun⟩
  · have hnone : owners (aoRelCreateHashEntry relid catalogs) = ∅ := by
      refine Finset.eq_empty_of_forall_notMem fun xid hmem => ?_
      obtain ⟨hne, i, -, rfl⟩ := mem_owners.mp hmem
      exact hne (hfile i).1
    rw [hnone]
    rfl

end

/-! ## The file that is chosen -/

section

variable {xid : Nat} {snapshot : Snapshot} {files : Nat → AOSegfileStatus}

/-- A file that the transaction has already, or else an available one. -/
theorem writeLoop_spec (segnos : List Nat) (chosen : Option Nat) :
    ((writeLoop xid snapshot files segnos chosen).2 = true ∧
      ∃ k ∈ segnos, (writeLoop xid snapshot files segnos chosen).1 = some k ∧
        (files k).xid = xid ∧ (files k).isfull = false) ∨
    ((writeLoop xid snapshot files segnos chosen).2 = false ∧
      (∀ i ∈ segnos, (files i).isfull = false → (files i).xid ≠ xid) ∧
      ∀ k, (writeLoop xid snapshot files segnos chosen).1 = some k → chosen = some k ∨
        (k ∈ segnos ∧ (files k).isfull = false ∧ (files k).state = .available ∧
          usedByConcurrentTransaction xid snapshot (files k) = false)) := by
  induction segnos generalizing chosen with
  | nil => exact .inr ⟨rfl, fun i hi => absurd hi List.not_mem_nil, fun k hk => .inl hk⟩
  | cons i segnos ih =>
    rw [writeLoop]
    dsimp only
    by_cases hfull : (files i).isfull = true
    · rw [if_pos hfull]
      rcases ih chosen with ⟨h₁, k, hk, h₂⟩ | ⟨h₁, h₂, h₃⟩
      · exact .inl ⟨h₁, k, List.mem_cons_of_mem _ hk, h₂⟩
      · refine .inr ⟨h₁, fun j hj hnot => ?_, fun k hk => (h₃ k hk).imp_right fun h =>
          ⟨List.mem_cons_of_mem _ h.1, h.2⟩⟩
        rcases List.mem_cons.mp hj with rfl | hj
        · rw [hfull] at hnot
          cases hnot
        · exact h₂ j hj hnot
    · rw [if_neg hfull]
      rw [Bool.not_eq_true] at hfull
      by_cases hown : (files i).xid = xid
      · rw [if_pos hown]
        exact .inl ⟨rfl, i, List.mem_cons_self .., rfl, hown, hfull⟩
      · rw [if_neg hown]
        rcases ih (if (files i).state = .available ∧
            (files i).formatversion = latestVersion ∧ chosen = none ∧
            usedByConcurrentTransaction xid snapshot (files i) = false then some i else chosen) with
          ⟨h₁, k, hk, h₂⟩ | ⟨h₁, h₂, h₃⟩
        · exact .inl ⟨h₁, k, List.mem_cons_of_mem _ hk, h₂⟩
        · refine .inr ⟨h₁, fun j hj hnot => ?_, fun k hk => ?_⟩
          · rcases List.mem_cons.mp hj with rfl | hj
            · exact hown
            · exact h₂ j hj hnot
          · rcases h₃ k hk with h | h
            · split_ifs at h with havail
              · cases h
                exact .inr ⟨List.mem_cons_self .., hfull, havail.1, havail.2.2.2⟩
              · exact .inl h
            · exact .inr ⟨List.mem_cons_of_mem _ h.1, h.2⟩

theorem compactionInsertLoop_spec {inCompactionList : Nat → Bool} {segnos : List Nat}
    {minTupcount : Int} {chosen : Option Nat} {k : Nat}
    (h : compactionInsertLoop xid snapshot inCompactionList files segnos minTupcount chosen =
        some k) :
    chosen = some k ∨ (k ∈ segnos ∧ inCompactionList k = false ∧
      ((files k).xid = xid ∨ ((files k).state = .available ∧
        usedByConcurrentTransaction xid snapshot (files k) = false))) := by
  induction segnos generalizing minTupcount chosen with
  | nil => exact .inl h
  | cons i segnos ih =>
    rw [compactionInsertLoop] at h
    by_cases hown : inCompactionList i = false ∧ (files i).xid = xid
    · rw [if_pos hown] at h
      cases h
      exact .inr ⟨List.mem_cons_self .., hown.1, .inl hown.2⟩
    · rw [if_neg hown] at h
      rcases ih h with h | ⟨h₁, h₂⟩
      · split_ifs at h with hbetter
        · cases h
          obtain ⟨-, h₂, -, h₄, h₅⟩ := hbetter
          exact .inr ⟨List.mem_cons_self .., h₅, .inr ⟨h₂, h₄⟩⟩
        · exact .inl h
      · exact .inr ⟨List.mem_cons_of_mem _ h₁, h₂⟩

theorem segnoAwaitingDrop_spec {compactedSegmentFileList : List Nat} {entry : AORelHashEntryData}
    {k : Nat} (h : segnoAwaitingDrop xid snapshot compactedSegmentFileList entry = some k) :
    k < maxAorelConcurrency ∧ ((entry.relsegfiles k).state = .awaitingDropReady ∨
      (entry.relsegfiles k).state = .compactedAwaitingDrop) := by
  have hmem := List.mem_of_find?_eq_some h
  have hfound := List.find?_some h
  simp only [Bool.and_eq_true, Bool.or_eq_true, beq_iff_eq] at hfound
  exact ⟨List.mem_range.mp hmem, hfound.1.1⟩

theorem segnoToCompact_spec {compactedSegmentFileList insertedSegmentFileList : List Nat}
    {entry : AORelHashEntryData} {k : Nat}
    (h : segnoToCompact xid snapshot compactedSegmentFileList insertedSegmentFileList entry =
      some k) :
    k < maxAorelConcurrency ∧ (entry.relsegfiles k).state = .available := by
  have hmem := List.mem_of_find?_eq_some h
  have hfound := List.find?_some h
  simp only [Bool.and_eq_true, beq_iff_eq] at hfound
  exact ⟨List.mem_range.mp hmem, hfound.1.1.1.2⟩

end

/-! ## Calls -/

section

variable {xacts : List Xact} {entry entry₀ : AORelHashEntryData} {x x' : Xact}

/-- The transaction with this id. -/
theorem eq_of_xid (hxids : (xacts.map (·.xid)).Nodup) {y : Xact} (hx : x ∈ xacts) (hy : y ∈ xacts)
    (h : y.xid = x.xid) : y = x :=
  List.inj_on_of_nodup_map hxids hy hx h

theorem EntryInv.mayOwn (h : EntryInv xacts entry) (hxids : (xacts.map (·.xid)).Nodup)
    (hvalid : x.xid ≠ invalidTransactionId) (hx : x ∈ xacts) {i : Nat}
    (hi : i < maxAorelConcurrency) (hown : (entry.relsegfiles i).xid = x.xid) :
    x.phase.mayOwn entry.relid i (entry.relsegfiles i) := by
  obtain ⟨y, hy, e₁, -, e₃⟩ := h.owner i hi (hown ▸ hvalid)
  rw [eq_of_xid hxids hx hy (e₁.trans hown)] at e₃
  exact e₃

theorem EntryInv.notMem_owners_of_idle (h : EntryInv xacts entry)
    (hxids : (xacts.map (·.xid)).Nodup) (hvalid : x.xid ≠ invalidTransactionId) (hx : x ∈ xacts)
    (hidle : x.phase = .idle) :
    x.xid ∉ owners entry := by
  intro hmem
  obtain ⟨-, i, hi, hown⟩ := mem_owners.mp hmem
  have hmay := h.mayOwn hxids hvalid hx hi hown
  rw [hidle] at hmay
  exact hmay

theorem EntryInv.free (h : EntryInv xacts entry) {i : Nat} (hi : i < maxAorelConcurrency)
    (hstate : (entry.relsegfiles i).state.inUse = false) :
    (entry.relsegfiles i).xid = invalidTransactionId := by
  by_contra hne
  rw [(h.inUse i hi).mp hne] at hstate
  cases hstate

theorem use_relsegfiles_self (entry : AORelHashEntryData) (segno : Nat) (state : AOSegfileState)
    (xid : Nat) : (entry.use segno state xid).relsegfiles segno =
      { entry.relsegfiles segno with state := state, xid := xid } :=
  Function.update_self ..

theorem use_relsegfiles_of_ne (entry : AORelHashEntryData) {segno i : Nat} (state : AOSegfileState)
    (xid : Nat) (hi : i ≠ segno) :
    (entry.use segno state xid).relsegfiles i = entry.relsegfiles i :=
  Function.update_of_ne hi ..

/-- One file is taken. -/
theorem taken_use {segno : Nat} {state : AOSegfileState}
    (hfiles : ∀ i, (entry₀.relsegfiles i).xid = (entry.relsegfiles i).xid ∧
      (entry₀.relsegfiles i).state = (entry.relsegfiles i).state ∧
      (entry₀.relsegfiles i).isfull = (entry.relsegfiles i).isfull)
    (hrelid : entry₀.relid = entry.relid) (hsegno : segno < maxAorelConcurrency)
    (hfree : (entry.relsegfiles segno).xid = invalidTransactionId ∨
      (entry.relsegfiles segno).xid = x'.xid) (huse : state.inUse = true)
    (hmay : x'.phase.mayOwn entry.relid segno
      { entry₀.relsegfiles segno with state := state, xid := x'.xid })
    (husers : entry₀.txnsUsingRel =
      if x'.xid ∈ owners entry then entry.txnsUsingRel else entry.txnsUsingRel + 1) :
    Taken x' entry (entry₀.use segno state x'.xid) where
  relid := hrelid
  files i _ := by
    by_cases hi : i = segno
    · subst hi
      rw [use_relsegfiles_self]
      exact .inr ⟨hfree, rfl, huse, hmay⟩
    · rw [use_relsegfiles_of_ne _ _ _ hi]
      exact .inl (hfiles i)
  taken := ⟨segno, hsegno, by rw [use_relsegfiles_self]⟩
  users := husers

theorem moves_use {segno xid : Nat} {state : AOSegfileState}
    (hfiles : ∀ i, (entry₀.relsegfiles i).state = (entry.relsegfiles i).state)
    (h : state = (entry.relsegfiles segno).state ∨
      validTransition (entry.relsegfiles segno).state state = true) :
    Moves entry (entry₀.use segno state xid) := by
  intro i hi
  by_cases hs : i = segno
  · subst hs
    rw [use_relsegfiles_self]
    exact h
  · rw [use_relsegfiles_of_ne _ _ _ hs, hfiles]
    exact .inl rfl

/-- **`SetSegnoForWrite`, when there is a file.** -/
theorem setSegnoForWrite_taken {snapshot : Snapshot} (h : EntryInv xacts entry)
    (hxids : (xacts.map (·.xid)).Nodup) (hvalid : x.xid ≠ invalidTransactionId) (hx : x ∈ xacts)
    (hphase : x.phase = .idle ∨ x.phase = .inserting)
    (hfound : (segnoToWrite x.xid snapshot entry).1.isSome = true) :
    (setSegnoForWrite x.xid snapshot entry).2.isSome = true ∧
      Taken { x with phase := .inserting, appendOnlyInsertXact := true } entry
        (setSegnoForWrite x.xid snapshot entry).1 ∧
      Moves entry (setSegnoForWrite x.xid snapshot entry).1 := by
  have hmem : ∀ i, i ∈ List.range' 1 (maxAorelConcurrency - 1) ↔ 1 ≤ i ∧
      i < maxAorelConcurrency := by
    intro i
    rw [List.mem_range'_1]
    exact Iff.rfl
  have hcounted : segnoToWrite x.xid snapshot
    { entry with txnsUsingRel := entry.txnsUsingRel + 1 } =
      segnoToWrite x.xid snapshot entry := rfl
  rcases writeLoop_spec (List.range' 1 (maxAorelConcurrency - 1)) none with
    ⟨hreused, k, hk, hsegno, hown, hfull⟩ | ⟨hreused, hnone, hsegno⟩
  · -- The transaction has the file already.
    have hpair : segnoToWrite x.xid snapshot entry = (some k, true) := Prod.ext hsegno hreused
    simp only [setSegnoForWrite, hcounted, hpair]
    have hk' := (hmem k).mp hk
    have hstate : (entry.relsegfiles k).state = .insertUse := by
      have hmay := h.mayOwn hxids hvalid hx hk'.2 hown
      rcases hphase with hphase | hphase <;> rw [hphase] at hmay
      · exact hmay.elim
      · exact hmay.1
    refine ⟨rfl, taken_use (fun _ => ⟨rfl, rfl, rfl⟩) rfl hk'.2 (.inr hown) rfl
      ⟨rfl, hfull, hk'.1⟩ ?_, moves_use (fun _ => rfl) (.inl hstate.symm)⟩
    rw [if_pos (mem_owners.mpr ⟨hvalid, k, hk'.2, hown⟩), if_pos trivial]
    exact Int.add_sub_cancel ..
  · -- It has no file, and gets an available one.
    obtain ⟨k, hfound⟩ := Option.isSome_iff_exists.mp hfound
    have hpair : segnoToWrite x.xid snapshot entry = (some k, false) := Prod.ext hfound hreused
    simp only [setSegnoForWrite, hcounted, hpair]
    obtain ⟨hk, hfull, havail, -⟩ := (hsegno k hfound).resolve_left nofun
    have hk' := (hmem k).mp hk
    have hnot : x.xid ∉ owners entry := by
      intro howner
      obtain ⟨-, i, hi, hown⟩ := mem_owners.mp howner
      have hmay := h.mayOwn hxids hvalid hx hi hown
      rcases hphase with hphase | hphase <;> rw [hphase] at hmay
      · exact hmay
      · exact hnone i ((hmem i).mpr ⟨hmay.2.2, hi⟩) hmay.2.1 hown
    refine ⟨rfl, taken_use (fun _ => ⟨rfl, rfl, rfl⟩) rfl hk'.2
      (.inl (h.free hk'.2 (by rw [havail]; rfl))) rfl ⟨rfl, hfull, hk'.1⟩ ?_,
      moves_use (fun _ => rfl) (.inr (by rw [havail]; rfl))⟩
    rw [if_neg hnot, if_neg Bool.false_ne_true]

/-- The entries agree on who owns the files and on their states. -/
structure SameFiles (entry entry' : AORelHashEntryData) : Prop where
  relid : entry'.relid = entry.relid
  users : entry'.txnsUsingRel = entry.txnsUsingRel
  xid : ∀ i, (entry'.relsegfiles i).xid = (entry.relsegfiles i).xid
  state : ∀ i, (entry'.relsegfiles i).state = (entry.relsegfiles i).state
  isfull : ∀ i, (entry'.relsegfiles i).isfull = (entry.relsegfiles i).isfull

theorem XactPhase.mayOwn_congr {phase : XactPhase} {relid i : Nat} {file file' : AOSegfileStatus}
    (hstate : file'.state = file.state) (hfull : file'.isfull = file.isfull)
    (h : phase.mayOwn relid i file) : phase.mayOwn relid i file' := by
  cases phase with
  | idle => exact h
  | inserting => exact ⟨hstate.trans h.1, hfull.trans h.2.1, h.2.2⟩
  | compacting relid' segno' => exact ⟨hstate.trans h.1, h.2⟩
  | vacuumed => trivial
  | ended => trivial

theorem SameFiles.moves (h : SameFiles entry entry₀) : Moves entry entry₀ :=
  fun i _ => .inl (h.state i)

theorem SameFiles.entryInv (h : SameFiles entry entry₀) (hinv : EntryInv xacts entry) :
    EntryInv xacts entry₀ := by
  refine hinv.congr h.relid h.users (fun i _ => h.xid i) (fun i _ => h.state i) ?_
  intro i _ y hy _ e₂ e₃
  exact ⟨y, hy, rfl, e₂, XactPhase.mayOwn_congr (h.state i) (h.isfull i) e₃⟩

theorem SameFiles.refl (entry : AORelHashEntryData) : SameFiles entry entry :=
  ⟨rfl, rfl, fun _ => rfl, fun _ => rfl, fun _ => rfl⟩

/-- Only the numbers of tuples of a file change. -/
theorem sameFiles_setFile {segno : Nat} {file : AOSegfileStatus}
    (hxid : file.xid = (entry.relsegfiles segno).xid)
    (hstate : file.state = (entry.relsegfiles segno).state)
    (hfull : file.isfull = (entry.relsegfiles segno).isfull) :
    SameFiles entry (entry.setFile segno file) := by
  refine ⟨rfl, rfl, fun i => ?_, fun i => ?_, fun i => ?_⟩
  all_goals
    rw [AORelHashEntryData.setFile]
    dsimp only
    by_cases hi : i = segno
    · subst hi
      rw [Function.update_self]
      assumption
    · rw [Function.update_of_ne hi]

theorem setSegzeroTupcount_same (compactedSegmentFileList : List Nat) (segzeroTupcount : Int)
    (entry : AORelHashEntryData) :
    SameFiles entry (setSegzeroTupcount compactedSegmentFileList segzeroTupcount entry) := by
  rw [setSegzeroTupcount]
  split_ifs
  · exact sameFiles_setFile rfl rfl rfl
  · exact SameFiles.refl entry

/-- `SetSegnoForCompaction` does not find a file to compact after segment file 0. -/
def compactionOk (xid : Nat) (snapshot : Snapshot)
    (compactedSegmentFileList insertedSegmentFileList : List Nat) (segzeroTupcount : Int)
    (entry : AORelHashEntryData) : Bool :=
  let entry := setSegzeroTupcount compactedSegmentFileList segzeroTupcount entry
  !(segnoAwaitingDrop xid snapshot compactedSegmentFileList entry == some 0 &&
    (segnoToCompact xid snapshot compactedSegmentFileList insertedSegmentFileList entry).isSome)

theorem compactionSegno_spec {xid segno : Nat} {drop : Bool} {snapshot : Snapshot}
    {compactedSegmentFileList insertedSegmentFileList : List Nat}
    (hok : ¬(segnoAwaitingDrop xid snapshot compactedSegmentFileList entry = some 0 ∧
      (segnoToCompact xid snapshot compactedSegmentFileList insertedSegmentFileList
        entry).isSome = true))
    (h : compactionSegno xid snapshot compactedSegmentFileList insertedSegmentFileList entry =
      some (segno, drop)) :
    segno < maxAorelConcurrency ∧ (entry.relsegfiles segno).state.inUse = false ∧
      validTransition (entry.relsegfiles segno).state
        (if drop then .pseudoCompactionUse else .compactionUse) = true := by
  rw [compactionSegno] at h
  obtain ⟨k, hk, heq⟩ := Option.map_eq_some_iff.mp h
  cases heq
  cases hdrop : segnoAwaitingDrop xid snapshot compactedSegmentFileList entry with
  | none =>
    rw [hdrop, if_pos (.inl rfl), Option.or_none] at hk
    obtain ⟨hlt, hstate⟩ := segnoToCompact_spec hk
    rw [hstate]
    exact ⟨hlt, rfl, rfl⟩
  | some k' =>
    have hk' : k' = segno := by
      rw [hdrop] at hk hok
      by_cases hzero : some k' = none ∨ some k' = some 0
      · have hnone : segnoToCompact xid snapshot compactedSegmentFileList insertedSegmentFileList
            entry = none := by
          rw [← Option.not_isSome_iff_eq_none]
          exact fun hsome => hok ⟨hzero.resolve_left nofun, hsome⟩
        rw [if_pos hzero, hnone, Option.none_or] at hk
        exact Option.some.inj hk
      · rw [if_neg hzero] at hk
        exact Option.some.inj hk
    subst hk'
    obtain ⟨hlt, hstate | hstate⟩ := segnoAwaitingDrop_spec hdrop
    · rw [hstate]
      exact ⟨hlt, rfl, rfl⟩
    · rw [hstate]
      exact ⟨hlt, rfl, rfl⟩

/-- **`SetSegnoForCompaction`**, with or without a file. -/
theorem setSegnoForCompaction_taken {snapshot : Snapshot}
    {compactedSegmentFileList insertedSegmentFileList : List Nat} {segzeroTupcount : Int}
    (h : EntryInv xacts entry) (hxids : (xacts.map (·.xid)).Nodup)
    (hvalid : x.xid ≠ invalidTransactionId) (hx : x ∈ xacts) (hidle : x.phase = .idle)
    (hok : compactionOk x.xid snapshot compactedSegmentFileList insertedSegmentFileList
      segzeroTupcount entry = true) :
    let result := setSegnoForCompaction x.xid snapshot compactedSegmentFileList
      insertedSegmentFileList segzeroTupcount entry
    Moves entry result.1 ∧
      (result.2 = none ∧ SameFiles entry result.1 ∨
        ∃ segno drop, result.2 = some (segno, drop) ∧ segno < maxAorelConcurrency ∧
          (result.1.relsegfiles segno).xid = x.xid ∧
          Taken { x with
            phase := phaseAfterCompaction entry.relid result.2
            appendOnlyInsertXact := true } entry result.1) := by
  intro result
  have hsame := setSegzeroTupcount_same compactedSegmentFileList segzeroTupcount entry
  have hresult : result = setSegnoForCompaction x.xid snapshot compactedSegmentFileList
    insertedSegmentFileList segzeroTupcount entry := rfl
  rw [setSegnoForCompaction] at hresult
  rw [compactionOk] at hok
  generalize setSegzeroTupcount compactedSegmentFileList segzeroTupcount entry = entry₁
    at hsame hresult hok
  dsimp only at hok hresult
  cases hsegno : compactionSegno x.xid snapshot compactedSegmentFileList insertedSegmentFileList
      entry₁ with
  | none =>
    rw [hsegno] at hresult
    rw [hresult]
    exact ⟨hsame.moves, .inl ⟨rfl, hsame⟩⟩
  | some found =>
    obtain ⟨segno, drop⟩ := found
    rw [hsegno] at hresult
    obtain ⟨hlt, hfree, hvalidt⟩ := compactionSegno_spec (fun hbad => by
      rw [hbad.1, hbad.2] at hok
      cases hok) hsegno
    have hinv := hsame.entryInv h
    have hxid := hinv.free hlt hfree
    have hnot := h.notMem_owners_of_idle hxids hvalid hx hidle
    rw [hresult]
    dsimp only
    rw [hxid, if_pos (Ne.symm hvalid)]
    refine ⟨moves_use hsame.state (.inr ?_), .inr ⟨segno, drop, rfl, hlt, ?_, ?_⟩⟩
    · rw [← hsame.state]
      exact hvalidt
    · rw [use_relsegfiles_self]
    · refine taken_use (fun i => ⟨hsame.xid i, hsame.state i, hsame.isfull i⟩) hsame.relid hlt
        (.inl (by rw [← hsame.xid, hxid])) ?_ ?_ ?_
      · cases drop <;> rfl
      · cases drop
        · exact ⟨rfl, rfl, rfl⟩
        · trivial
      · rw [if_neg hnot, hsame.users]

/-- **`SetSegnoForCompactionInsert`**: the transaction has been counted for the file to compact. -/
theorem setSegnoForCompactionInsert_taken {snapshot : Snapshot}
    {compactedSegmentFileList : List Nat} {segno : Nat} (h : EntryInv xacts entry)
    (hxids : (xacts.map (·.xid)).Nodup) (hvalid : x.xid ≠ invalidTransactionId) (hx : x ∈ xacts)
    (hphase : x.phase = .compacting entry.relid segno) (hsegno : segno < maxAorelConcurrency)
    (hown : (entry.relsegfiles segno).xid = x.xid) :
    let result := setSegnoForCompactionInsert x.xid snapshot [segno] compactedSegmentFileList entry
    Moves entry result.1 ∧
      (SameFiles entry result.1 ∨ Taken { x with phase := .vacuumed } entry result.1) := by
  intro result
  have hresult : result = setSegnoForCompactionInsert x.xid snapshot
    [segno] compactedSegmentFileList
    entry := rfl
  rw [setSegnoForCompactionInsert] at hresult
  cases hchosen : compactionInsertLoop x.xid snapshot
      (fun i => [segno].contains i || compactedSegmentFileList.contains i) entry.relsegfiles
      (List.range' 1 (maxAorelConcurrency - 1)) (2 ^ 63 - 1) none with
  | none =>
    rw [hchosen] at hresult
    rw [hresult]
    exact ⟨Moves.refl entry, .inl (SameFiles.refl entry)⟩
  | some k =>
    rw [hchosen] at hresult
    rw [hresult]
    obtain ⟨hk, hnot, hfile⟩ := (compactionInsertLoop_spec hchosen).resolve_left nofun
    have hlt : k < maxAorelConcurrency := (List.mem_range'_1.mp hk).2
    have hne : k ≠ segno := by
      rintro rfl
      simp at hnot
    have havail : (entry.relsegfiles k).state = .available := by
      rcases hfile with hmine | havail
      · have hmay := h.mayOwn hxids hvalid hx hlt hmine
        rw [hphase] at hmay
        exact absurd hmay.2.2 hne
      · exact havail.1
    refine ⟨moves_use (fun _ => rfl) (.inr (by rw [havail]; rfl)), .inr ?_⟩
    refine taken_use (fun _ => ⟨rfl, rfl, rfl⟩) rfl hlt
      (.inl (h.free hlt (by rw [havail]; rfl))) rfl
      trivial ?_
    rw [if_pos (mem_owners.mpr ⟨hvalid, segno, hsegno, hown⟩)]

/-- **Registering files for the drop, or skipping it.** -/
theorem registerSegnos_taken {state : AOSegfileState} {compactedSegmentFileList : List Nat}
    (h : EntryInv xacts entry) (hxids : (xacts.map (·.xid)).Nodup)
    (hvalid : x.xid ≠ invalidTransactionId) (hx : x ∈ xacts) (hidle : x.phase = .idle)
    (huse : state.inUse = true) (hmove : validTransition .compactedAwaitingDrop state = true)
    (hne : compactedSegmentFileList ≠ [])
    (hlt : ∀ i ∈ compactedSegmentFileList, i < maxAorelConcurrency)
    (hok : ∀ i ∈ compactedSegmentFileList, (entry.relsegfiles i).state = .compactedAwaitingDrop) :
    Moves entry (registerSegnos state x.xid compactedSegmentFileList entry) ∧
      Taken { x with phase := .vacuumed, appendOnlyInsertXact := true } entry
        (registerSegnos state x.xid compactedSegmentFileList entry) := by
  have hlisted : ∀ i, i < maxAorelConcurrency ∧ compactedSegmentFileList.contains i = true ↔
      i ∈ compactedSegmentFileList := by
    intro i
    rw [List.contains_iff_mem]
    exact ⟨fun hi => hi.2, fun hi => ⟨hlt i hi, hi⟩⟩
  obtain ⟨k, hk⟩ := List.exists_mem_of_ne_nil _ hne
  refine ⟨fun i hi => ?_, ⟨rfl, fun i hi => ?_, ⟨k, hlt k hk, ?_⟩, ?_⟩⟩
  · rw [registerSegnos]
    dsimp only
    by_cases hmem : i ∈ compactedSegmentFileList
    · rw [if_pos ((hlisted i).mpr hmem), hok i hmem]
      exact .inr hmove
    · rw [if_neg (mt (hlisted i).mp hmem)]
      exact .inl rfl
  · rw [registerSegnos]
    dsimp only
    by_cases hmem : i ∈ compactedSegmentFileList
    · rw [if_pos ((hlisted i).mpr hmem)]
      exact .inr ⟨.inl (h.free hi (by rw [hok i hmem]; rfl)), rfl, huse, trivial⟩
    · rw [if_neg (mt (hlisted i).mp hmem)]
      exact .inl ⟨rfl, rfl, rfl⟩
  · rw [registerSegnos]
    dsimp only
    rw [if_pos ((hlisted k).mpr hk)]
  · rw [if_neg (h.notMem_owners_of_idle hxids hvalid hx hidle)]
    rfl

end

end Hdb.AppendOnly
