import Hdb.AppendOnly.SegfileStates

/-!
# Runs of the append-only writer

The invariant of the hash table is kept by every step, as long as no call goes wrong (`callOk`).
-/

namespace Hdb.AppendOnly

open Dtx

/-! ## The hash table -/

section

variable {config : WriterConfig} {st st₁ : WriterState} {entry entry' : AORelHashEntryData}
  {relid : Nat} {session : Session} {x x' : Xact}

theorem eq_of_relid (h : (st.hash.map (·.relid)).Nodup) {e e' : AORelHashEntryData}
    (he : e ∈ st.hash) (he' : e' ∈ st.hash) (heq : e.relid = e'.relid) : e = e' :=
  List.inj_on_of_nodup_map h he he' heq

theorem mem_of_lookup (h : aoRelLookupHashEntry st relid = some entry) :
    entry ∈ st.hash ∧ entry.relid = relid := by
  have hrelid := List.find?_some h
  exact ⟨List.mem_of_find?_eq_some h, beq_iff_eq.mp hrelid⟩

theorem lookup_of_mem (h : (st.hash.map (·.relid)).Nodup) (hmem : entry ∈ st.hash) :
    aoRelLookupHashEntry st entry.relid = some entry := by
  cases hfind : aoRelLookupHashEntry st entry.relid with
  | none =>
    have hne := List.find?_eq_none.mp hfind entry hmem
    simp at hne
  | some e =>
    obtain ⟨he, heq⟩ := mem_of_lookup hfind
    rw [eq_of_relid h he hmem heq]

theorem lookup_eq_none (h : aoRelLookupHashEntry st relid = none) :
    ∀ e ∈ st.hash, e.relid ≠ relid := by
  intro e he heq
  have hne := List.find?_eq_none.mp h e he
  rw [heq, beq_self_eq_true] at hne
  exact hne rfl

theorem aoRelRemoveHashEntry_hash (st : WriterState) (relid : Nat) :
    (aoRelRemoveHashEntry st relid).hash = st.hash.filter (·.relid != relid) := by
  rw [aoRelRemoveHashEntry]
  split_ifs with h
  · rfl
  · refine (List.filter_eq_self.mpr fun e he => ?_).symm
    rw [bne_iff_ne]
    exact lookup_eq_none (Option.not_isSome_iff_eq_none.mp h) e he

theorem aoRelRemoveHashEntry_xacts (st : WriterState) (relid : Nat) :
    (aoRelRemoveHashEntry st relid).xacts = st.xacts := by
  rw [aoRelRemoveHashEntry]
  split_ifs <;> rfl

/-- **An unused entry is thrown away.** -/
theorem WriterInv.remove (h : WriterInv st) (hmem : entry ∈ st.hash)
    (hunused : entry.txnsUsingRel = 0) : WriterInv (aoRelRemoveHashEntry st entry.relid) := by
  have hxacts := aoRelRemoveHashEntry_xacts st entry.relid
  have hhash := aoRelRemoveHashEntry_hash st entry.relid
  refine ⟨by rw [hxacts]; exact h.xids, by rw [hxacts]; exact h.valid, ?_, ?_, ?_⟩
  · rw [hhash]
    exact h.relids.sublist (List.filter_sublist.map _)
  · rw [hxacts, hhash]
    exact fun e he => h.entries e (List.mem_of_mem_filter he)
  · rw [hxacts, hhash]
    intro x hx relid segno hphase
    obtain ⟨e, he, hrelid, hsegno, hown⟩ := h.compacting x hx relid segno hphase
    refine ⟨e, List.mem_filter.mpr ⟨he, ?_⟩, hrelid, hsegno, hown⟩
    rw [bne_iff_ne]
    intro heq
    have hpos := (h.entries e he).txnsUsingRel_pos hsegno (hown ▸ h.valid x hx)
    rw [eq_of_relid h.relids he hmem heq] at hpos
    omega

/-- **A new entry is made.** -/
theorem WriterInv.create (h : WriterInv st) (hnone : ∀ e ∈ st.hash, e.relid ≠ relid)
    (catalogs : Catalogs) (n : Nat) :
    WriterInv { st with
      hash := aoRelCreateHashEntry relid catalogs :: st.hash, numExistingAorels := n } := by
  refine ⟨h.xids, h.valid, ?_, ?_, ?_⟩
  · refine List.nodup_cons.mpr ⟨?_, h.relids⟩
    rw [List.mem_map]
    rintro ⟨e, he, heq⟩
    exact hnone e he heq
  · intro e he
    rcases List.mem_cons.mp he with rfl | he
    · exact entryInv_create st.xacts relid catalogs
    · exact h.entries e he
  · intro x hx relid' segno hphase
    obtain ⟨e, he, hrest⟩ := h.compacting x hx relid' segno hphase
    exact ⟨e, List.mem_cons_of_mem _ he, hrest⟩

theorem appendOnlyRelHashNew_spec {victim : Nat} (h : WriterInv st)
    (hnew : appendOnlyRelHashNew config st victim = .ok st₁) :
    WriterInv st₁ ∧ st₁.xacts = st.xacts ∧ ∀ e ∈ st₁.hash, e ∈ st.hash := by
  rw [appendOnlyRelHashNew] at hnew
  split_ifs at hnew
  · split at hnew
    · cases hnew
    case _ entry hentry =>
      cases hnew
      obtain ⟨hmem, hunused⟩ := List.mem_filter.mp (List.mem_of_getElem? hentry)
      refine ⟨h.remove hmem (beq_iff_eq.mp hunused), aoRelRemoveHashEntry_xacts .., ?_⟩
      rw [aoRelRemoveHashEntry_hash]
      exact fun e he => List.mem_of_mem_filter he
  · cases hnew
    exact ⟨h, rfl, fun e he => he⟩

/-- The entry that a call works on. -/
def entryFor (st : WriterState) (relid : Nat) (catalogs : Catalogs) : AORelHashEntryData :=
  (aoRelLookupHashEntry st relid).getD (aoRelCreateHashEntry relid catalogs)

/-- **Getting the entry of a table.** -/
theorem getEntry_spec (h : WriterInv st)
    (hget : getEntry config st relid session = .ok (st₁, entry)) :
    WriterInv st₁ ∧ st₁.xacts = st.xacts ∧ entry ∈ st₁.hash ∧ entry.relid = relid ∧
      entry = entryFor st relid session.catalogs ∧ ∀ e ∈ st₁.hash, e.relid ≠ relid →
      e ∈ st.hash := by
  rw [getEntry, aoRelGetOrCreateHashEntry] at hget
  cases hfind : aoRelLookupHashEntry st relid with
  | some e =>
    rw [hfind, if_pos Option.isSome_some] at hget
    dsimp only at hget
    rw [hfind] at hget
    cases hget
    obtain ⟨hmem, hrelid⟩ := mem_of_lookup hfind
    refine ⟨h, rfl, hmem, hrelid, ?_, fun e he _ => he⟩
    rw [entryFor, hfind, Option.getD_some]
  | none =>
    rw [hfind, if_neg (by simp)] at hget
    cases hnew : appendOnlyRelHashNew config st session.victim with
    | error e =>
      rw [hnew] at hget
      cases hget
    | ok st' =>
      obtain ⟨hinv, hxacts, hsub⟩ := appendOnlyRelHashNew_spec h hnew
      rw [hnew] at hget
      have hlookup : aoRelLookupHashEntry { st' with
          hash := aoRelCreateHashEntry relid session.catalogs :: st'.hash
          numExistingAorels := st'.numExistingAorels + 1 } relid =
          some (aoRelCreateHashEntry relid session.catalogs) :=
        List.find?_cons_of_pos (beq_self_eq_true relid)
      dsimp only at hget
      rw [hlookup] at hget
      cases hget
      refine ⟨hinv.create (fun e he => lookup_eq_none hfind e (hsub e he)) _ _, hxacts,
        List.mem_cons_self .., rfl, ?_, fun e he hne => ?_⟩
      · rw [entryFor, hfind, Option.getD_none]
      · rcases List.mem_cons.mp he with rfl | he
        · exact absurd rfl hne
        · exact hsub e he

/-! ## Transactions -/

theorem mem_of_findXact {xid : Nat} (h : findXact st xid = some x) : x ∈ st.xacts ∧
    x.xid = xid := by
  have hxid := List.find?_some h
  exact ⟨List.mem_of_find?_eq_some h, beq_iff_eq.mp hxid⟩

theorem setXact_xids (st : WriterState) (x' : Xact) :
    (setXact st x').xacts.map (·.xid) = st.xacts.map (·.xid) := by
  rw [setXact, List.map_map]
  refine List.map_congr_left fun y _ => ?_
  rw [Function.comp_apply]
  split_ifs with heq
  · exact heq.symm
  · rfl

theorem mem_setXact (hxid : x'.xid = x.xid) (hx : x ∈ st.xacts) : x' ∈ (setXact st x').xacts :=
  List.mem_map.mpr ⟨x, hx, if_pos hxid.symm⟩

theorem mem_setXact_of_ne {y : Xact} (hy : y ∈ st.xacts) (hne : y.xid ≠ x'.xid) :
    y ∈ (setXact st x').xacts :=
  List.mem_map.mpr ⟨y, hy, if_neg hne⟩

theorem of_mem_setXact {y : Xact} (hy : y ∈ (setXact st x').xacts) :
    y = x' ∨ (y ∈ st.xacts ∧ y.xid ≠ x'.xid) := by
  obtain ⟨z, hz, heq⟩ := List.mem_map.mp hy
  split_ifs at heq with hxid
  · exact .inl heq.symm
  · exact .inr ⟨heq ▸ hz, heq ▸ hxid⟩

/-- A transaction owns at least the files that it owned before. -/
structure Owns (x x' : Xact) : Prop where
  xid : x'.xid = x.xid
  flag : x.appendOnlyInsertXact = true → x'.appendOnlyInsertXact = true
  mayOwn : ∀ relid i file, x.phase.mayOwn relid i file → x'.phase.mayOwn relid i file

theorem Owns.setXact (h : Owns x x') (st : WriterState) (hxids : (st.xacts.map (·.xid)).Nodup)
    (hx : x ∈ st.xacts) {y : Xact} (hy : y ∈ st.xacts) {relid i : Nat} {file : AOSegfileStatus}
    (hflag : y.appendOnlyInsertXact = true) (hmay : y.phase.mayOwn relid i file) :
    ∃ y' ∈ (setXact st x').xacts, y'.xid = y.xid ∧ y'.appendOnlyInsertXact = true ∧
      y'.phase.mayOwn relid i file := by
  by_cases hxid : y.xid = x'.xid
  · obtain rfl := eq_of_xid hxids hx hy (hxid.trans h.xid)
    exact ⟨x', mem_setXact h.xid hx, h.xid, h.flag hflag, h.mayOwn relid i file hmay⟩
  · exact ⟨y, mem_setXact_of_ne hy hxid, rfl, hflag, hmay⟩

/-- What a call does to the entry: it takes files for the transaction, or none. -/
def Called (x' : Xact) (entry entry' : AORelHashEntryData) : Prop :=
  SameFiles entry entry' ∨ (Taken x' entry entry' ∧ x'.appendOnlyInsertXact = true)

theorem Called.keep (h : Called x' entry entry') {i : Nat} (hi : i < maxAorelConcurrency)
    (hne : (entry.relsegfiles i).xid ≠ invalidTransactionId) :
    (entry'.relsegfiles i).xid = (entry.relsegfiles i).xid := by
  rcases h with h | ⟨h, -⟩
  · exact h.xid i
  · rcases h.files i hi with ⟨hsame, -⟩ | ⟨hfree | hmine, hown, -⟩
    · exact hsame
    · exact absurd hfree hne
    · exact hown.trans hmine.symm

theorem Called.relid_eq (h : Called x' entry entry') : entry'.relid = entry.relid :=
  h.elim (fun h => h.relid) fun h => h.1.relid

/-- **One entry and one transaction change.** -/
theorem WriterInv.call (h : WriterInv st) (hmem : entry ∈ st.hash) (hx : x ∈ st.xacts)
    (howns : Owns x x') (hcall : Called x' entry entry')
    (hcomp : ∀ relid segno, x'.phase = .compacting relid segno → relid = entry.relid ∧
      segno < maxAorelConcurrency ∧ (entry'.relsegfiles segno).xid = x.xid) :
    WriterInv (setXact (setEntry st entry') x') := by
  have hxids : (setXact (setEntry st entry') x').xacts.map (·.xid) = st.xacts.map (·.xid) :=
    setXact_xids _ _
  have hhash : (setXact (setEntry st entry') x').hash = (setEntry st entry').hash := rfl
  have hput : entry' ∈ (setEntry st entry').hash :=
    List.mem_map.mpr ⟨entry, hmem, if_pos hcall.relid_eq.symm⟩
  have hrest : ∀ e ∈ st.hash, e.relid ≠ entry.relid → e ∈ (setEntry st entry').hash :=
    fun e he hne => List.mem_map.mpr ⟨e, he, if_neg (hcall.relid_eq ▸ hne)⟩
  refine ⟨by rw [hxids]; exact h.xids, ?_, ?_, ?_, ?_⟩
  · intro y hy
    rcases of_mem_setXact hy with rfl | ⟨hy, -⟩
    · rw [howns.xid]
      exact h.valid x hx
    · exact h.valid y hy
  · have hrelids : (setEntry st entry').hash.map (·.relid) = st.hash.map (·.relid) := by
      rw [setEntry, List.map_map]
      refine List.map_congr_left fun e _ => ?_
      rw [Function.comp_apply]
      split_ifs with heq
      · exact heq.symm
      · rfl
    rw [hhash, hrelids]
    exact h.relids
  · intro e he
    obtain ⟨e₀, he₀, heq⟩ := List.mem_map.mp he
    have howner : ∀ (e₁ : AORelHashEntryData), ∀ i < maxAorelConcurrency, ∀ y ∈ st.xacts,
        y.xid = (e₁.relsegfiles i).xid → y.appendOnlyInsertXact = true →
        y.phase.mayOwn e₁.relid i (e₁.relsegfiles i) →
        ∃ y' ∈ (setXact (setEntry st entry') x').xacts, y'.xid = y.xid ∧
          y'.appendOnlyInsertXact = true ∧ y'.phase.mayOwn e₁.relid i (e₁.relsegfiles i) :=
      fun e₁ i _ y hy _ hflag hmay =>
        howns.setXact (setEntry st entry') h.xids hx hy hflag hmay
    split_ifs at heq with hrelid
    · subst heq
      rcases hcall with hsame | ⟨htaken, hflag⟩
      · exact (h.entries entry hmem).congr hsame.relid hsame.users (fun i _ => hsame.xid i)
          (fun i _ => hsame.state i) fun i hi y hy e₁ e₂ e₃ => by
            obtain ⟨y', hy', f₁, f₂, f₃⟩ := howner entry i hi y hy e₁ e₂ e₃
            exact ⟨y', hy', f₁, f₂, XactPhase.mayOwn_congr (hsame.state i) (hsame.isfull i) f₃⟩
      · exact (h.entries entry hmem).take htaken (howns.xid ▸ h.valid x hx)
          (mem_setXact howns.xid hx) hflag (howner entry)
    · subst heq
      exact (h.entries e₀ he₀).congr rfl rfl (fun _ _ => rfl) (fun _ _ => rfl) (howner e₀)
  · intro y hy relid segno hphase
    rcases of_mem_setXact hy with rfl | ⟨hy, hne⟩
    · obtain ⟨rfl, hsegno, hown⟩ := hcomp relid segno hphase
      exact ⟨entry', hput, hcall.relid_eq, hsegno, hown.trans howns.xid.symm⟩
    · obtain ⟨e, he, hrelid, hsegno, hown⟩ := h.compacting y hy relid segno hphase
      by_cases hsame : e.relid = entry.relid
      · obtain rfl := eq_of_relid h.relids he hmem hsame
        refine ⟨entry', hput, hcall.relid_eq.trans hrelid, hsegno, ?_⟩
        rw [hcall.keep hsegno (hown ▸ h.valid y hy), hown]
      · exact ⟨e, hrest e he hsame, hrelid, hsegno, hown⟩

/-- **All entries change, but no file changes its owner.** -/
theorem WriterInv.mapHash (h : WriterInv st) {xacts' : List Xact}
    {g : AORelHashEntryData → AORelHashEntryData}
    (hxids : xacts'.map (·.xid) = st.xacts.map (·.xid))
    (hentries : ∀ e ∈ st.hash, EntryInv xacts' (g e))
    (hrelid : ∀ e ∈ st.hash, (g e).relid = e.relid)
    (hown : ∀ e ∈ st.hash, ∀ i, ((g e).relsegfiles i).xid = (e.relsegfiles i).xid)
    (hcomp : ∀ y ∈ xacts', ∀ relid segno, y.phase = .compacting relid segno → y ∈ st.xacts) :
    WriterInv { st with hash := st.hash.map g, xacts := xacts' } := by
  refine ⟨by rw [hxids]; exact h.xids, fun y hy => ?_, ?_, ?_, ?_⟩
  · have hmem : y.xid ∈ st.xacts.map (·.xid) := hxids ▸ List.mem_map_of_mem hy
    obtain ⟨z, hz, heq⟩ := List.mem_map.mp hmem
    exact heq ▸ h.valid z hz
  · have hrelids : (st.hash.map g).map (·.relid) = st.hash.map (·.relid) := by
      rw [List.map_map]
      exact List.map_congr_left hrelid
    rw [hrelids]
    exact h.relids
  · intro e he
    obtain ⟨e₀, he₀, rfl⟩ := List.mem_map.mp he
    exact hentries e₀ he₀
  · intro y hy relid segno hphase
    obtain ⟨e, he, h₁, h₂, h₃⟩ := h.compacting y (hcomp y hy relid segno hphase) relid segno hphase
    exact ⟨g e, List.mem_map_of_mem he, (hrelid e he).trans h₁, h₂, (hown e he segno).trans h₃⟩

theorem mapOwned_xid {xid : Nat} {f : AOSegfileStatus → AOSegfileStatus}
    (hf : ∀ file, (f file).xid = file.xid) (files : Nat → AOSegfileStatus) (i : Nat) :
    (mapOwned xid f files i).xid = (files i).xid := by
  rw [mapOwned]
  split_ifs
  · exact hf _
  · rfl

theorem mapOwned_state {xid : Nat} {f : AOSegfileStatus → AOSegfileStatus}
    (hf : ∀ file, (f file).state = file.state) (files : Nat → AOSegfileStatus) (i : Nat) :
    (mapOwned xid f files i).state = (files i).state := by
  rw [mapOwned]
  split_ifs
  · exact hf _
  · rfl

/-- What a part of the end of a transaction does to an entry. -/
structure Ending (xid : Nat) (entry entry' : AORelHashEntryData) : Prop where
  relid : entry'.relid = entry.relid
  users : entry'.txnsUsingRel = entry.txnsUsingRel
  xid_eq : ∀ i, (entry'.relsegfiles i).xid = (entry.relsegfiles i).xid
  state : ∀ i, (entry'.relsegfiles i).state = (entry.relsegfiles i).state
  others : ∀ i, (entry.relsegfiles i).xid ≠ xid → entry'.relsegfiles i = entry.relsegfiles i

theorem ending_mapOwned {xid : Nat} {f : AOSegfileStatus → AOSegfileStatus}
    (hxid : ∀ file, (f file).xid = file.xid) (hstate : ∀ file, (f file).state = file.state)
    (entry : AORelHashEntryData) :
    Ending xid entry { entry with relsegfiles := mapOwned xid f entry.relsegfiles } where
  relid := rfl
  users := rfl
  xid_eq := mapOwned_xid hxid entry.relsegfiles
  state := mapOwned_state hstate entry.relsegfiles
  others i hne := by
    dsimp only
    rw [mapOwned, if_neg fun h => hne h.2]

theorem Ending.refl (xid : Nat) (entry : AORelHashEntryData) : Ending xid entry entry :=
  ⟨rfl, rfl, fun _ => rfl, fun _ => rfl, fun _ _ => rfl⟩

theorem atCommitAppendOnly_ending (xid : Nat) (entry : AORelHashEntryData) :
    Ending xid entry (atCommitAppendOnly xid entry) := by
  rw [atCommitAppendOnly]
  split_ifs
  · exact ending_mapOwned (f := commitFile xid) (fun _ => rfl) (fun _ => rfl) entry
  · exact Ending.refl xid entry

theorem atAbortAppendOnly_ending (xid : Nat) (entry : AORelHashEntryData) :
    Ending xid entry (atAbortAppendOnly xid entry) := by
  rw [atAbortAppendOnly]
  split_ifs
  · exact ending_mapOwned (f := abortFile) (fun _ => rfl) (fun _ => rfl) entry
  · exact Ending.refl xid entry

/-- **The files are kept while the transaction ends.** -/
theorem WriterInv.ending (h : WriterInv st) (hx : x ∈ st.xacts)
    {g : AORelHashEntryData → AORelHashEntryData} (hg : ∀ e, Ending x.xid e (g e)) :
    WriterInv (setXact { st with hash := st.hash.map g } { x with phase := .ended }) := by
  have howns : Owns x { x with phase := .ended } := ⟨rfl, fun h => h, fun _ _ _ _ => trivial⟩
  refine h.mapHash (setXact_xids _ _) (fun e he => ?_) (fun e _ => (hg e).relid)
    (fun e _ => (hg e).xid_eq) fun y hy relid segno hphase => ?_
  · refine (h.entries e he).congr (hg e).relid (hg e).users (fun i _ => (hg e).xid_eq i)
      (fun i _ => (hg e).state i) fun i _ y hy hxid hflag hmay => ?_
    by_cases hmine : (e.relsegfiles i).xid = x.xid
    · obtain rfl := eq_of_xid h.xids hx hy (hxid.trans hmine)
      exact ⟨_, mem_setXact howns.xid hx, rfl, hflag, trivial⟩
    · rw [(hg e).others i hmine]
      exact howns.setXact { st with hash := st.hash.map g } h.xids hx hy hflag hmay
  · rcases of_mem_setXact hy with rfl | ⟨hy, -⟩
    · cases hphase
    · exact hy

/-- The entry is the same if the transaction owns none of its files. -/
theorem EntryInv.release_none {xid : Nat} {xacts : List Xact} (h : EntryInv xacts entry)
    (hvalid : xid ≠ invalidTransactionId) (hnot : xid ∉ owners entry) :
    EntryInv (xacts.filter (·.xid != xid)) entry := by
  refine h.release rfl (fun i hi => ?_) (if_neg hnot).symm
  rw [if_neg fun heq => hnot (mem_owners.mpr ⟨hvalid, i, hi, heq⟩)]

/-- **An entry after a transaction.** It is thrown away only if nobody uses it. -/
theorem atEOXactAppendOnlyRelation_spec (config : WriterConfig) {xid : Nat} {xacts : List Xact}
    (h : EntryInv xacts entry) (hvalid : xid ≠ invalidTransactionId) :
    ∃ entry', EntryInv (xacts.filter (·.xid != xid)) entry' ∧ entry'.relid = entry.relid ∧
      (∀ i, (entry.relsegfiles i).xid ≠ xid →
        (entry'.relsegfiles i).xid = (entry.relsegfiles i).xid) ∧ Moves entry entry' ∧
      ((atEOXactAppendOnlyRelation config xid entry = none ∧ entry'.txnsUsingRel = 0) ∨
        atEOXactAppendOnlyRelation config xid entry = some entry') := by
  rw [atEOXactAppendOnlyRelation]
  by_cases hunused : entry.txnsUsingRel = 0
  · have hnot : xid ∉ owners entry := by
      intro hmem
      have hpos := Finset.card_pos.mpr ⟨xid, hmem⟩
      have husers := h.users
      omega
    rw [if_pos hunused]
    exact ⟨entry, h.release_none hvalid hnot, rfl, fun _ _ => rfl, Moves.refl entry, .inr rfl⟩
  · rw [if_neg hunused]
    dsimp only
    have husers : (if entry.usedBy xid = true then entry.txnsUsingRel - 1 else entry.txnsUsingRel) =
        if xid ∈ owners entry then entry.txnsUsingRel - 1 else entry.txnsUsingRel := by
      by_cases hmem : xid ∈ owners entry
      · rw [if_pos hmem, if_pos ((usedBy_iff hvalid).mpr hmem)]
      · rw [if_neg hmem, if_neg (mt (usedBy_iff hvalid).mp hmem)]
    rw [husers]
    generalize htxns :
      (if xid ∈ owners entry then entry.txnsUsingRel - 1 else entry.txnsUsingRel) = n
    refine ⟨{ entry with
      relsegfiles := mapOwned xid atEOXactStateTransition entry.relsegfiles
      txnsUsingRel := n }, h.release rfl (fun i hi => ?_) htxns.symm, rfl, fun i hne => ?_,
      fun i hi => ?_, ?_⟩
    · dsimp only
      rw [mapOwned]
      by_cases hown : (entry.relsegfiles i).xid = xid
      · rw [if_pos ⟨hi, hown⟩, if_pos hown]
      · rw [if_neg fun hboth => hown hboth.2, if_neg hown]
    · dsimp only
      rw [mapOwned, if_neg fun hboth => hne hboth.2]
    · dsimp only
      rw [mapOwned]
      split_ifs
      · exact next_moves ..
      · exact .inl rfl
    · split_ifs with hevict
      · exact .inl ⟨rfl, hevict.2⟩
      · exact .inr rfl

/-- The entries after a transaction, without those that are thrown away. -/
def hashAfter (config : WriterConfig) (st : WriterState) (x : Xact) : List AORelHashEntryData :=
  if x.appendOnlyInsertXact then st.hash.filterMap (atEOXactAppendOnlyRelation config x.xid)
  else st.hash

/-- A transaction that has not set `appendOnlyInsertXact` owns nothing. -/
theorem WriterInv.notMem_owners_of_flag (h : WriterInv st) (hx : x ∈ st.xacts)
    (hflag : x.appendOnlyInsertXact = false) (hmem : entry ∈ st.hash) : x.xid ∉ owners entry := by
  intro howner
  obtain ⟨hne, i, hi, hown⟩ := mem_owners.mp howner
  obtain ⟨y, hy, e₁, e₂, -⟩ := (h.entries entry hmem).owner i hi (hown ▸ hne)
  rw [eq_of_xid h.xids hx hy (e₁.trans hown), hflag] at e₂
  cases e₂

theorem atEOXactAppendOnlyRelation_relid {xid : Nat}
    (h : atEOXactAppendOnlyRelation config xid entry = some entry') :
    entry'.relid = entry.relid := by
  rw [atEOXactAppendOnlyRelation] at h
  by_cases hunused : entry.txnsUsingRel = 0
  · rw [if_pos hunused] at h
    cases h
    rfl
  · rw [if_neg hunused] at h
    cases (Option.ite_none_left_eq_some.mp h).2
    rfl

theorem hashAfter_relids (config : WriterConfig) (st : WriterState) (x : Xact) :
    ((hashAfter config st x).map (·.relid)).Sublist (st.hash.map (·.relid)) := by
  rw [hashAfter]
  split_ifs
  · induction st.hash with
    | nil => exact List.Sublist.refl _
    | cons e es ih =>
      cases heq : atEOXactAppendOnlyRelation config x.xid e with
      | none =>
        rw [List.filterMap_cons_none heq]
        exact ih.cons _
      | some e' =>
        rw [List.filterMap_cons_some heq, List.map_cons, List.map_cons,
          atEOXactAppendOnlyRelation_relid heq]
        exact ih.cons_cons _
  · exact List.Sublist.refl _

/-- **The entries after a transaction.** -/
theorem WriterInv.hashAfter_mem (h : WriterInv st) (hx : x ∈ st.xacts)
    (hmem : entry' ∈ hashAfter config st x) :
    ∃ entry ∈ st.hash, EntryInv (st.xacts.filter (·.xid != x.xid)) entry' ∧
      entry'.relid = entry.relid ∧ Moves entry entry' := by
  cases hflag : x.appendOnlyInsertXact with
  | false =>
    rw [hashAfter, hflag, if_neg Bool.false_ne_true] at hmem
    exact ⟨entry', hmem, (h.entries entry' hmem).release_none (h.valid x hx)
      (h.notMem_owners_of_flag hx hflag hmem), rfl, Moves.refl entry'⟩
  | true =>
    rw [hashAfter, hflag, if_pos rfl] at hmem
    obtain ⟨entry, hmem, hsome⟩ := List.mem_filterMap.mp hmem
    obtain ⟨e, e₁, e₂, -, e₄, e₅⟩ :=
      atEOXactAppendOnlyRelation_spec config (h.entries entry hmem) (h.valid x hx)
    rcases e₅ with ⟨hnone, -⟩ | hsome'
    · rw [hnone] at hsome
      cases hsome
    · rw [hsome'] at hsome
      cases hsome
      exact ⟨entry, hmem, e₁, e₂, e₄⟩

/-- The entry of a file that another transaction owns is not thrown away. -/
theorem WriterInv.hashAfter_keeps (h : WriterInv st) (config : WriterConfig) (hx : x ∈ st.xacts)
    (hmem : entry ∈ st.hash) {i : Nat} (hi : i < maxAorelConcurrency)
    (hne : (entry.relsegfiles i).xid ≠ invalidTransactionId)
    (hother : (entry.relsegfiles i).xid ≠ x.xid) :
    ∃ entry' ∈ hashAfter config st x, entry'.relid = entry.relid ∧
      (entry'.relsegfiles i).xid = (entry.relsegfiles i).xid := by
  rw [hashAfter]
  split_ifs
  · obtain ⟨e, e₁, e₂, e₃, -, e₅⟩ :=
      atEOXactAppendOnlyRelation_spec config (h.entries entry hmem) (h.valid x hx)
    have hkept := e₃ i hother
    rcases e₅ with ⟨-, hzero⟩ | hsome
    · have hpos := e₁.txnsUsingRel_pos hi (hkept ▸ hne)
      omega
    · exact ⟨e, List.mem_filterMap.mpr ⟨entry, hmem, hsome⟩, e₂, hkept⟩
  · exact ⟨entry, hmem, rfl, rfl⟩

/-- **A transaction finishes.** -/
theorem WriterInv.finish (h : WriterInv st) (hx : x ∈ st.xacts) (n : Nat) :
    WriterInv ⟨hashAfter config st x, n, st.xacts.filter (·.xid != x.xid)⟩ := by
  refine ⟨h.xids.sublist (List.filter_sublist.map _), fun y hy => ?_, ?_, fun e he => ?_, ?_⟩
  · exact h.valid y (List.mem_of_mem_filter hy)
  · exact h.relids.sublist (hashAfter_relids config st x)
  · obtain ⟨entry, -, hinv, -⟩ := h.hashAfter_mem hx he
    exact hinv
  · intro y hy relid segno hphase
    obtain ⟨hy, hne⟩ := List.mem_filter.mp hy
    obtain ⟨e, he, hrelid, hsegno, hown⟩ := h.compacting y hy relid segno hphase
    obtain ⟨e', he', f₁, f₂⟩ := h.hashAfter_keeps config hx he hsegno
      (hown ▸ h.valid y hy) (hown ▸ bne_iff_ne.mp hne)
    exact ⟨e', he', f₁.trans hrelid, hsegno, f₂.trans hown⟩

end

/-! ## Steps -/

/-- The entry that the call gets, if it gets one, meets a condition. -/
def entryOk (config : WriterConfig) (st : WriterState) (relid : Nat) (session : Session)
    (ok : AORelHashEntryData → Bool) : Bool :=
  match getEntry config st relid session with
  | .error _ => true
  | .ok (_, entry) => ok entry

/-- There is a file to write to. There is no file to compact after segment file 0, if that awaits a
drop. The files to drop have been compacted, and the entry has not been thrown away since. -/
def callOk (config : WriterConfig) (st : WriterState) : WriterAction → Bool
  | .setSegnoForWrite xid relid session => entryOk config st relid session fun entry =>
      (segnoToWrite xid session.snapshot entry).1.isSome
  | .setSegnoForCompaction xid relid session compactedSegmentFileList insertedSegmentFileList
      segzeroTupcount => entryOk config st relid session (compactionOk xid session.snapshot
        compactedSegmentFileList insertedSegmentFileList segzeroTupcount)
  | .registerSegnoForCompactionDrop _ relid session compactedSegmentFileList =>
      entryOk config st relid session fun entry => compactedSegmentFileList.all fun i =>
        (entry.relsegfiles i).state == .compactedAwaitingDrop
  | .deregisterSegnoForCompactionDrop _ relid session compactedSegmentFileList =>
      entryOk config st relid session fun entry => compactedSegmentFileList.all fun i =>
        (entry.relsegfiles i).state == .compactedAwaitingDrop
  | _ => true

/-- What has been read from the catalogs. -/
def WriterAction.catalogs : WriterAction → Catalogs
  | .setSegnoForWrite _ _ session => session.catalogs
  | .setSegnoForCompaction _ _ session _ _ _ => session.catalogs
  | .setSegnoForCompactionInsert _ session _ => session.catalogs
  | .registerSegnoForCompactionDrop _ _ session _ => session.catalogs
  | .deregisterSegnoForCompactionDrop _ _ session _ => session.catalogs
  | _ => ⟨[], []⟩

/-- Every change of a state is a transition. An entry that was not there before the step starts from
the catalogs. -/
def StepMoves (st : WriterState) (catalogs : Catalogs) (st' : WriterState) : Prop :=
  ∀ entry ∈ st'.hash, Moves (entryFor st entry.relid catalogs) entry

section

variable {config : WriterConfig} {st st' : WriterState} {entry entry' : AORelHashEntryData}
  {relid : Nat} {session : Session} {x x' : Xact} {catalogs : Catalogs}

theorem WriterInv.entryFor_eq (h : WriterInv st) (hmem : entry ∈ st.hash) (catalogs : Catalogs) :
    entryFor st entry.relid catalogs = entry := by
  rw [entryFor, lookup_of_mem h.relids hmem, Option.getD_some]

theorem WriterInv.stepMoves_of_mem (h : WriterInv st)
    (hmem : ∀ entry' ∈ st'.hash, ∃ entry ∈ st.hash, entry'.relid = entry.relid ∧
      Moves entry entry') :
    StepMoves st catalogs st' := by
  intro entry' hentry'
  obtain ⟨entry, hentry, hrelid, hmoves⟩ := hmem entry' hentry'
  rw [hrelid, h.entryFor_eq hentry]
  exact hmoves

/-- **One call.** -/
theorem call_inv {ρ : Type} {f : AORelHashEntryData → AORelHashEntryData × ρ} {done : ρ → Xact}
    (h : WriterInv st) (hx : x ∈ st.xacts) {ok : AORelHashEntryData → Bool}
    (hok : entryOk config st relid session ok = true)
    (hcall : ∀ entry, EntryInv st.xacts entry → entry.relid = relid → ok entry = true →
      (∀ e ∈ st.hash, e.relid = relid → e = entry) →
      Owns x (done (f entry).2) ∧ Called (done (f entry).2) entry (f entry).1 ∧
        Moves entry (f entry).1 ∧
        ∀ relid' segno, (done (f entry).2).phase = .compacting relid' segno → relid' = relid ∧
          segno < maxAorelConcurrency ∧ ((f entry).1.relsegfiles segno).xid = x.xid) :
    WriterInv (call config st relid session f done) ∧
      StepMoves st session.catalogs (call config st relid session f done) := by
  rw [call]
  rw [entryOk] at hok
  cases hget : getEntry config st relid session with
  | error e => exact ⟨h, h.stepMoves_of_mem fun e he => ⟨e, he, rfl, Moves.refl e⟩⟩
  | ok result =>
    obtain ⟨st₁, entry⟩ := result
    rw [hget] at hok
    dsimp only at hok ⊢
    obtain ⟨hinv, hxacts, hmem, hrelid, heq, hrest⟩ := getEntry_spec h hget
    obtain ⟨howns, hcalled, hmoves, hcomp⟩ :=
      hcall entry (hxacts ▸ hinv.entries entry hmem) hrelid hok
      fun e he her => by
        rw [heq, ← her, h.entryFor_eq he]
    refine ⟨hinv.call hmem (hxacts.symm ▸ hx) howns hcalled fun relid' segno hphase => ?_, ?_⟩
    · rw [hrelid]
      exact hcomp relid' segno hphase
    · intro e he
      obtain ⟨e₀, he₀, rfl⟩ := List.mem_map.mp he
      split_ifs with hsame
      · rw [hcalled.relid_eq, hrelid, ← heq]
        exact hmoves
      · rw [hcalled.relid_eq, hrelid] at hsame
        rw [h.entryFor_eq (hrest e₀ he₀ hsame)]
        exact Moves.refl e₀

/-- `RegisterSegnoForCompactionDrop` and `DeregisterSegnoForCompactionDrop`. -/
theorem registerStep_inv {state : AOSegfileState} {compactedSegmentFileList : List Nat}
    (h : WriterInv st) (hx : x ∈ st.xacts) (huse : state.inUse = true)
    (hmove : validTransition .compactedAwaitingDrop state = true)
    (hok : entryOk config st relid session (fun entry => compactedSegmentFileList.all fun i =>
      (entry.relsegfiles i).state == .compactedAwaitingDrop) = true)
    (hstep : registerStep config st x relid session
      (registerSegnos state) compactedSegmentFileList =
      some st') : WriterInv st' ∧ StepMoves st session.catalogs st' := by
  rw [registerStep] at hstep
  obtain ⟨⟨hidle, hlt⟩, hstep⟩ := Option.ite_none_right_eq_some.mp hstep
  by_cases hnil : compactedSegmentFileList = []
  · rw [if_pos hnil] at hstep
    cases hstep
    exact ⟨h, h.stepMoves_of_mem fun e he => ⟨e, he, rfl, Moves.refl e⟩⟩
  · rw [if_neg hnil] at hstep
    cases hstep
    refine call_inv h hx hok fun entry hentry hrelid hlist _ => ?_
    have hstates : ∀ i ∈ compactedSegmentFileList,
        (entry.relsegfiles i).state = .compactedAwaitingDrop :=
      fun i hi => beq_iff_eq.mp (List.all_eq_true.mp hlist i hi)
    obtain ⟨hmoves, htaken⟩ := registerSegnos_taken hentry h.xids (h.valid x hx) hx hidle huse hmove
      hnil hlt hstates
    refine ⟨⟨rfl, fun _ => rfl, fun _ _ _ hmay => ?_⟩, .inr ⟨htaken, rfl⟩, hmoves, nofun⟩
    rw [hidle] at hmay
    exact hmay.elim

/-- The flags of a transaction, and the files of an entry, as they are after a part of the end of
the transaction. -/
theorem ending_inv (h : WriterInv st) (hx : x ∈ st.xacts)
    {g : AORelHashEntryData → AORelHashEntryData} (hg : ∀ e, Ending x.xid e (g e)) :
    let hash := if x.appendOnlyInsertXact then st.hash.map g else st.hash
    WriterInv (setXact { st with hash := hash } { x with phase := .ended }) ∧
      StepMoves st catalogs (setXact { st with hash := hash } { x with phase := .ended }) := by
  have hmap : ∀ g : AORelHashEntryData → AORelHashEntryData, (∀ e, Ending x.xid e (g e)) →
      WriterInv (setXact { st with hash := st.hash.map g } { x with phase := .ended }) ∧
        StepMoves st catalogs
        (setXact { st with hash := st.hash.map g } { x with phase := .ended }) := by
    intro g hg
    refine ⟨h.ending hx hg, h.stepMoves_of_mem fun e he => ?_⟩
    obtain ⟨e₀, he₀, rfl⟩ := List.mem_map.mp he
    exact ⟨e₀, he₀, (hg e₀).relid, fun i _ => .inl ((hg e₀).state i)⟩
  intro hash
  have hhash : hash = st.hash.map (if x.appendOnlyInsertXact then g else id) := by
    cases hflag : x.appendOnlyInsertXact <;> simp [hash, hflag]
  rw [hhash]
  refine hmap _ fun e => ?_
  split_ifs
  · exact hg e
  · exact Ending.refl x.xid e

theorem entryOk_true (config : WriterConfig) (st : WriterState) (relid : Nat) (session : Session) :
    entryOk config st relid session (fun _ => true) = true := by
  rw [entryOk]
  split <;> rfl

theorem addTuples_same (relid segno : Nat) (tupcount : Int) (entry : AORelHashEntryData) :
    SameFiles entry (if entry.relid = relid then entry.setFile segno { entry.relsegfiles segno with
      tupsadded := (entry.relsegfiles segno).tupsadded + tupcount } else entry) := by
  split_ifs
  · exact sameFiles_setFile rfl rfl rfl
  · exact SameFiles.refl entry

/-- **A transaction begins.** -/
theorem WriterInv.begin {xid : Nat} (h : WriterInv st) (hvalid : transactionIdIsValid xid = true)
    (hnone : findXact st xid = none) :
    WriterInv { st with xacts := ⟨xid, .idle, false⟩ :: st.xacts } := by
  refine ⟨List.nodup_cons.mpr ⟨fun hmem => ?_, h.xids⟩, ?_, h.relids, fun e he => ?_, ?_⟩
  · obtain ⟨y, hy, heq⟩ := List.mem_map.mp hmem
    have hne := List.find?_eq_none.mp hnone y hy
    rw [heq, beq_self_eq_true] at hne
    exact hne rfl
  · intro y hy
    rcases List.mem_cons.mp hy with rfl | hy
    · exact bne_iff_ne.mp hvalid
    · exact h.valid y hy
  · exact (h.entries e he).congr rfl rfl (fun _ _ => rfl)
      (fun _ _ => rfl) fun i _ y hy _ hflag hmay =>
      ⟨y, List.mem_cons_of_mem _ hy, rfl, hflag, hmay⟩
  · intro y hy relid segno hphase
    rcases List.mem_cons.mp hy with rfl | hy
    · cases hphase
    · exact h.compacting y hy relid segno hphase

/-- **One step.** -/
theorem writerStep_inv {a : WriterAction} (h : WriterInv st) (hok : callOk config st a = true)
    (hstep : writerStep config st a = some st') : WriterInv st' ∧ StepMoves st a.catalogs st' := by
  cases a with
  | begin xid =>
    obtain ⟨⟨hvalid, hnone⟩, hstep⟩ := Option.ite_none_right_eq_some.mp hstep
    cases hstep
    exact ⟨h.begin hvalid hnone, h.stepMoves_of_mem fun e he => ⟨e, he, rfl, Moves.refl e⟩⟩
  | setSegnoForWrite xid relid session =>
    obtain ⟨x, hfind, hstep⟩ := Option.bind_eq_some_iff.mp hstep
    obtain ⟨hx, rfl⟩ := mem_of_findXact hfind
    obtain ⟨hphase, hstep⟩ := Option.ite_none_right_eq_some.mp hstep
    cases hstep
    refine call_inv h hx hok fun entry hentry hrelid hfound _ => ?_
    obtain ⟨hsome, htaken, hmoves⟩ := setSegnoForWrite_taken hentry h.xids (h.valid x hx) hx hphase
      hfound
    rw [if_pos hsome]
    refine ⟨⟨rfl, fun _ => rfl, fun _ _ _ hmay => ?_⟩, .inr ⟨htaken, rfl⟩, hmoves, nofun⟩
    rcases hphase with hphase | hphase
    · rw [hphase] at hmay
      exact hmay.elim
    · rw [hphase] at hmay
      exact hmay
  | updateMasterAosegTotals relid segno tupcount =>
    obtain ⟨-, hstep⟩ := Option.ite_none_right_eq_some.mp hstep
    cases hstep
    have hsame := addTuples_same relid segno tupcount
    refine ⟨h.mapHash rfl (fun e he => (hsame e).entryInv (h.entries e he))
      (fun e _ => (hsame e).relid) (fun e _ => (hsame e).xid) fun y hy _ _ _ => hy,
      h.stepMoves_of_mem fun e he => ?_⟩
    obtain ⟨e₀, he₀, rfl⟩ := List.mem_map.mp he
    exact ⟨e₀, he₀, (hsame e₀).relid, (hsame e₀).moves⟩
  | setSegnoForCompaction xid relid session compactedSegmentFileList insertedSegmentFileList
      segzeroTupcount =>
    obtain ⟨x, hfind, hstep⟩ := Option.bind_eq_some_iff.mp hstep
    obtain ⟨hx, rfl⟩ := mem_of_findXact hfind
    obtain ⟨hidle, hstep⟩ := Option.ite_none_right_eq_some.mp hstep
    cases hstep
    refine call_inv h hx hok fun entry hentry hrelid hcompact _ => ?_
    obtain ⟨hmoves, hresult⟩ := setSegnoForCompaction_taken hentry h.xids (h.valid x hx) hx hidle
      hcompact
    refine ⟨⟨rfl, fun hflag => ?_, fun _ _ _ hmay => ?_⟩, ?_, hmoves, ?_⟩
    · dsimp only
      rw [hflag, Bool.true_or]
    · rw [hidle] at hmay
      exact hmay.elim
    · rcases hresult with ⟨-, hsame⟩ | ⟨segno, drop, hsome, -, -, htaken⟩
      · exact .inl hsame
      · refine .inr ⟨?_, ?_⟩
        · rw [hrelid] at htaken
          rw [hsome] at htaken ⊢
          rw [Option.isSome_some, Bool.or_true]
          exact htaken
        · dsimp only
          rw [hsome, Option.isSome_some, Bool.or_true]
    · intro relid' segno' hphase
      rcases hresult with ⟨hnone, -⟩ | ⟨segno, drop, hsome, hlt, hown, -⟩
      · rw [hnone] at hphase
        cases hphase
      · rw [hsome] at hphase
        cases drop
        · cases hphase
          exact ⟨rfl, hlt, hown⟩
        · cases hphase
  | setSegnoForCompactionInsert xid session compactedSegmentFileList =>
    obtain ⟨x, hfind, hstep⟩ := Option.bind_eq_some_iff.mp hstep
    obtain ⟨hx, rfl⟩ := mem_of_findXact hfind
    split at hstep
    case _ relid segno hphase =>
      cases hstep
      refine call_inv h hx (entryOk_true ..) fun entry hentry hrelid _ hentries => ?_
      obtain ⟨e, he, her, hsegno, hown⟩ := h.compacting x hx relid segno hphase
      obtain rfl := hentries e he her
      subst hrelid
      obtain ⟨hmoves, hresult⟩ := setSegnoForCompactionInsert_taken hentry h.xids (h.valid x hx) hx
        hphase hsegno hown
      obtain ⟨y, hy, e₁, e₂, -⟩ := hentry.owner segno hsegno (hown ▸ h.valid x hx)
      rw [eq_of_xid h.xids hx hy (e₁.trans hown)] at e₂
      exact ⟨⟨rfl, fun hflag => hflag, fun _ _ _ _ => trivial⟩,
        hresult.imp_right fun htaken => ⟨htaken, e₂⟩, hmoves, nofun⟩
    · cases hstep
  | registerSegnoForCompactionDrop xid relid session compactedSegmentFileList =>
    obtain ⟨x, hfind, hstep⟩ := Option.bind_eq_some_iff.mp hstep
    exact registerStep_inv h (mem_of_findXact hfind).1 rfl rfl hok hstep
  | deregisterSegnoForCompactionDrop xid relid session compactedSegmentFileList =>
    obtain ⟨x, hfind, hstep⟩ := Option.bind_eq_some_iff.mp hstep
    exact registerStep_inv h (mem_of_findXact hfind).1 rfl rfl hok hstep
  | atCommit xid =>
    obtain ⟨x, hfind, hstep⟩ := Option.bind_eq_some_iff.mp hstep
    obtain ⟨hx, rfl⟩ := mem_of_findXact hfind
    obtain ⟨-, hstep⟩ := Option.ite_none_left_eq_some.mp hstep
    cases hstep
    exact ending_inv h hx (atCommitAppendOnly_ending x.xid)
  | atAbort xid =>
    obtain ⟨x, hfind, hstep⟩ := Option.bind_eq_some_iff.mp hstep
    obtain ⟨hx, rfl⟩ := mem_of_findXact hfind
    cases hstep
    exact ending_inv h hx (atAbortAppendOnly_ending x.xid)
  | atEOXact xid =>
    obtain ⟨x, hfind, hstep⟩ := Option.bind_eq_some_iff.mp hstep
    obtain ⟨hx, rfl⟩ := mem_of_findXact hfind
    obtain ⟨-, hstep⟩ := Option.ite_none_right_eq_some.mp hstep
    cases hstep
    refine ⟨h.finish hx _, h.stepMoves_of_mem fun e he => ?_⟩
    obtain ⟨entry, hmem, -, hrelid, hmoves⟩ := h.hashAfter_mem hx he
    exact ⟨entry, hmem, hrelid, hmoves⟩

end

/-! ## Runs -/

/-- What holds between calls. -/
structure SegfilesSound (st : WriterState) : Prop where
  inUse : ∀ entry ∈ st.hash, ∀ i < maxAorelConcurrency,
    (entry.relsegfiles i).xid ≠ invalidTransactionId ↔ (entry.relsegfiles i).state.inUse = true
  owner : ∀ entry ∈ st.hash, ∀ i < maxAorelConcurrency,
    (entry.relsegfiles i).xid ≠ invalidTransactionId →
      (entry.relsegfiles i).xid ∈ st.xacts.map (·.xid)
  users : ∀ entry ∈ st.hash,
    entry.txnsUsingRel = ((st.xacts.map (·.xid)).filter entry.usedBy).length
  unused : ∀ entry ∈ st.hash, entry.txnsUsingRel = 0 ↔
    ∀ i < maxAorelConcurrency, (entry.relsegfiles i).xid = invalidTransactionId

instance (entry entry' : AORelHashEntryData) : Decidable (Moves entry entry') :=
  inferInstanceAs (Decidable (∀ i < maxAorelConcurrency, _ ∨ _))

instance (st : WriterState) (catalogs : Catalogs) (st' : WriterState) :
    Decidable (StepMoves st catalogs st') :=
  inferInstanceAs (Decidable (∀ entry ∈ st'.hash, Moves (entryFor st entry.relid catalogs) entry))

section

variable {config : WriterConfig} {st : WriterState} {entry : AORelHashEntryData}

theorem WriterInv.filter_usedBy (h : WriterInv st) (hmem : entry ∈ st.hash) :
    ((st.xacts.map (·.xid)).filter entry.usedBy).toFinset = owners entry := by
  ext xid
  rw [List.mem_toFinset, List.mem_filter]
  constructor
  · rintro ⟨hxid, hused⟩
    obtain ⟨x, hx, rfl⟩ := List.mem_map.mp hxid
    exact (usedBy_iff (h.valid x hx)).mp hused
  · intro howner
    obtain ⟨hne, i, hi, hown⟩ := mem_owners.mp howner
    obtain ⟨x, hx, hxid, -⟩ := (h.entries entry hmem).owner i hi (hown ▸ hne)
    exact ⟨List.mem_map.mpr ⟨x, hx, hxid.trans hown⟩, (usedBy_iff hne).mpr howner⟩

theorem WriterInv.sound (h : WriterInv st) : SegfilesSound st where
  inUse entry hmem := (h.entries entry hmem).inUse
  owner entry hmem i hi hne := by
    obtain ⟨x, hx, hxid, -⟩ := (h.entries entry hmem).owner i hi hne
    exact List.mem_map.mpr ⟨x, hx, hxid⟩
  users entry hmem := by
    rw [(h.entries entry hmem).users, ← h.filter_usedBy hmem,
      List.toFinset_card_of_nodup (h.xids.filter _)]
  unused entry hmem := by
    rw [(h.entries entry hmem).users, Int.natCast_eq_zero, Finset.card_eq_zero,
      Finset.eq_empty_iff_forall_notMem]
    constructor
    · intro hnone i hi
      by_contra hne
      exact hnone _ (mem_owners.mpr ⟨hne, i, hi, rfl⟩)
    · intro hfree xid howner
      obtain ⟨hne, i, hi, rfl⟩ := mem_owners.mp howner
      exact hne (hfree i hi)

theorem writerInv_start : WriterInv writerStart :=
  ⟨List.nodup_nil, fun _ hx => (nomatch hx), List.nodup_nil, fun _ he => (nomatch he),
    fun _ hx => (nomatch hx)⟩

/-- **States, owners and users of segment files**, in every run in which no call goes wrong. -/
theorem segfile_states (config : WriterConfig) (as : List WriterAction) (st : WriterState)
    (hok : Along (writerStep config) (fun st a => callOk config st a = true) writerStart as)
    (hrun : run (writerStep config) writerStart as = some st) :
    SegfilesSound st ∧ ∀ a st', callOk config st a = true → writerStep config st a = some st' →
      StepMoves st a.catalogs st' := by
  have hinv : WriterInv st := run_invariant_along
    (fun _ _ _ h hcall hstep => (writerStep_inv h hcall hstep).1) hok writerInv_start hrun
  exact ⟨hinv.sound, fun a st' hcall hstep => (writerStep_inv hinv hcall hstep).2⟩

end

/-- An insertion, and then a vacuum that compacts the file and drops it. -/
theorem segfile_states_vacuum :
    let config : WriterConfig := ⟨10, false⟩
    let session : Session := ⟨⟨6, []⟩, ⟨[⟨1, 100, latestVersion⟩], []⟩, 0⟩
    let as := [.begin 3, .setSegnoForWrite 3 1 session, .updateMasterAosegTotals 1 1 50,
      .atCommit 3, .atEOXact 3, .begin 4, .setSegnoForCompaction 4 1 session [] [] 0,
      .setSegnoForCompactionInsert 4 session [], .atCommit 4, .atEOXact 4, .begin 5,
      .registerSegnoForCompactionDrop 5 1 session [1]]
    ∃ st, run (writerStep config) writerStart as = some st ∧ SegfilesSound st ∧
      st.hash.map (fun entry => ((entry.relsegfiles 1).state, (entry.relsegfiles 1).xid,
        entry.txnsUsingRel)) = [(.dropUse, 5, 1)] := by
  intro config session as
  obtain ⟨st, hrun⟩ := Option.isSome_iff_exists.mp
    (show (run (writerStep config) writerStart as).isSome from by decide +kernel)
  have hshape : (run (writerStep config) writerStart as).map (fun st => st.hash.map fun entry =>
      ((entry.relsegfiles 1).state, (entry.relsegfiles 1).xid, entry.txnsUsingRel)) =
      some [(.dropUse, 5, 1)] := by
    decide +kernel
  rw [hrun, Option.map_some, Option.some.injEq] at hshape
  exact ⟨st, hrun, (segfile_states config as st (by decide +kernel) hrun).1, hshape⟩

theorem exists_not_stepMoves {config : WriterConfig} {as : List WriterAction} {a : WriterAction}
    (h : ((run (writerStep config) writerStart as).bind fun st => (writerStep config st a).map
      fun st' => decide (StepMoves st a.catalogs st')) = some false) :
    ∃ st st', run (writerStep config) writerStart as = some st ∧
      writerStep config st a = some st' ∧ ¬ StepMoves st a.catalogs st' := by
  obtain ⟨st, hrun, h⟩ := Option.bind_eq_some_iff.mp h
  obtain ⟨st', hstep, hmoves⟩ := Option.map_eq_some_iff.mp h
  exact ⟨st, st', hrun, hstep, of_decide_eq_false hmoves⟩

/-- **What goes wrong.** The first transaction finds no file and is gone, but it is still counted.
The second one marks an available file as if it awaited a drop. The third one drops a file after the
entry has been thrown away and made again. -/
theorem segfile_states_broken :
    let session (fileSegs : List FileSegInfo) (awaitingDrop : List Nat) : Session :=
      ⟨⟨10, []⟩, ⟨fileSegs, awaitingDrop⟩, 0⟩
    let file (segno : Nat) : FileSegInfo := ⟨segno, 100, latestVersion⟩
    let all := List.range' 1 127
    (∃ st, run (writerStep ⟨10, false⟩) writerStart [.begin 3,
        .setSegnoForWrite 3 1 (session (all.map file) all), .atAbort 3, .atEOXact 3] = some st ∧
      ¬ SegfilesSound st) ∧
    (∃ st st', run (writerStep ⟨10, false⟩) writerStart [.begin 3] = some st ∧
      let a : WriterAction := .setSegnoForCompaction 3 1 (session [file 0, file 1] [0]) [] [] 100
      writerStep ⟨10, false⟩ st a = some st' ∧ ¬ StepMoves st a.catalogs st') ∧
    (∃ st st', run (writerStep ⟨1, false⟩) writerStart [.begin 3,
        .setSegnoForCompaction 3 1 (session [file 1] []) [] [] 0,
        .setSegnoForCompactionInsert 3 (session [] []) [], .atCommit 3, .atEOXact 3, .begin 4,
        .setSegnoForWrite 4 2 (session [] []), .atCommit 4, .atEOXact 4, .begin 5] = some st ∧
      let a : WriterAction := .registerSegnoForCompactionDrop 5 1 (session [file 1] [1]) [1]
      writerStep ⟨1, false⟩ st a = some st' ∧ ¬ StepMoves st a.catalogs st') := by
  intro session file all
  refine ⟨?_, exists_not_stepMoves (by decide +kernel), exists_not_stepMoves (by decide +kernel)⟩
  have hleft : (run (writerStep ⟨10, false⟩) writerStart [.begin 3,
      .setSegnoForWrite 3 1 (session (all.map file) all), .atAbort 3, .atEOXact 3]).map (fun st =>
      (st.xacts, st.hash.map (·.txnsUsingRel))) = some ([], [1]) := by
    decide +kernel
  obtain ⟨st, hrun, hleft⟩ := Option.map_eq_some_iff.mp hleft
  obtain ⟨hxacts, hhash⟩ := Prod.mk.injEq .. ▸ hleft
  refine ⟨st, hrun, fun hsound => ?_⟩
  obtain ⟨entry, hmem, hone⟩ := List.mem_map.mp (hhash ▸ List.mem_singleton_self (1 : Int))
  have husers := hsound.users entry hmem
  rw [hone, hxacts] at husers
  cases husers

end Hdb.AppendOnly
