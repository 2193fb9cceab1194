import Hdb.Tbm.Intersect

/-!
# Iterating over a tid bitmap

The exact pages and the chunks are sorted once and then gone over together, so that the pages come
in the order of their blocks. A lossy page is reported without tids and is to be checked again.
-/

namespace Hdb.Tbm

open Bitmap (PagetableEntry TBMIterator TBMIterateResult pagesPerChunk)

variable {tbm : TIDBitmap} {e : PagetableEntry} {i k : Nat} {x : TidSet}

/-! ## The sorted lists -/

theorem scanPages_perm (scan : HashSeq) (tbm : TIDBitmap) :
    (scanPages scan tbm).Perm tbm.pagetable.records := by
  rw [scanPages, ← Keyed.filterMap_get?_keys tbm.pagetable]
  exact (scan.perm tbm).filterMap _

/-- The entries of one kind, sorted. -/
def sortedPages (scan : HashSeq) (tbm : TIDBitmap) (p : PagetableEntry → Bool) :
    List PagetableEntry :=
  sortPages ((scanPages scan tbm).filter p)

variable {scan : HashSeq} {p : PagetableEntry → Bool}

theorem length_sortedPages (scan : HashSeq) (tbm : TIDBitmap) (p : PagetableEntry → Bool) :
    (sortedPages scan tbm p).length = tbm.pagetable.count p := by
  rw [sortedPages, sortPages, List.length_mergeSort, ((scanPages_perm scan tbm).filter p).length_eq,
    ← List.countP_eq_length_filter]
  rfl

theorem mem_sortedPages :
    e ∈ sortedPages scan tbm p ↔ tbm.pagetable.get? e.blockno = some e ∧ p e = true := by
  rw [sortedPages, sortPages, List.mem_mergeSort, List.mem_filter, mem_scanPages]

theorem pairwise_sortedPages (scan : HashSeq) (tbm : TIDBitmap) (p : PagetableEntry → Bool) :
    ((sortedPages scan tbm p).map PagetableEntry.blockno).Pairwise (· < ·) := by
  have hle : (sortedPages scan tbm p).Pairwise
      fun e f => decide (e.blockno ≤ f.blockno) = true := by
    refine List.pairwise_mergeSort ?_ ?_ _
    · intro e f g h₁ h₂
      exact decide_eq_true ((of_decide_eq_true h₁).trans (of_decide_eq_true h₂))
    · intro e f
      rw [Bool.or_eq_true, decide_eq_true_eq, decide_eq_true_eq]
      exact le_total _ _
  have hne : ((sortedPages scan tbm p).map PagetableEntry.blockno).Nodup := by
    have hperm := (List.mergeSort_perm ((scanPages scan tbm).filter p)
      fun e f => decide (e.blockno ≤ f.blockno)).trans ((scanPages_perm scan tbm).filter p)
    refine (hperm.map _).nodup_iff.mpr (tbm.pagetable.nodup.sublist ?_)
    exact List.filter_sublist.map _
  rw [List.pairwise_map]
  rw [List.nodup_iff_pairwise_ne, List.pairwise_map] at hne
  exact (hle.and hne).imp fun h => lt_of_le_of_ne (of_decide_eq_true h.1) h.2

/-- The lists of an iteration. -/
structure Listed (tbm : TIDBitmap) (it : Bitmap.TIDBitmap) : Prop where
  spages : (it.spages.map PagetableEntry.blockno).Pairwise (· < ·)
  schunks : (it.schunks.map PagetableEntry.blockno).Pairwise (· < ·)
  exact : ∀ e, e ∈ it.spages ↔ Exact tbm.table e.blockno e
  chunk : ∀ c, c ∈ it.schunks ↔ tbm.table.get? c.blockno = some c ∧ c.ischunk = true

theorem listed_tbmBeginIterate (h : tbm.Ok) (scan : HashSeq) (uninit : Nat → PagetableEntry) :
    Listed tbm (tbmBeginIterate scan uninit tbm).tbm := by
  rw [tbmBeginIterate, Bitmap.tbmBeginIterate]
  cases hs : tbm.status with
  | empty =>
    refine ⟨.nil, .nil, fun e => iff_of_false List.not_mem_nil ?_,
      fun c => iff_of_false List.not_mem_nil ?_⟩
    · rw [Exact, table_empty hs]
      exact fun he => absurd he.1.symm (Option.some_ne_none e)
    · rw [table_empty hs]
      exact fun hc => absurd hc.1.symm (Option.some_ne_none c)
  | onePage =>
    obtain ⟨hpages, -⟩ := h.counts_onePage hs
    have hexact := h.onePage hs
    have hlist : List.replicate tbm.npages.toNat tbm.entry1 = [tbm.entry1] := by
      rw [hpages]
      rfl
    dsimp only
    rw [hlist]
    have hget : ∀ e, tbm.table.get? e.blockno = some e → e = tbm.entry1 := by
      intro e he
      rw [get?_onePage hs] at he
      split_ifs at he
      exact (Option.some.inj he).symm
    refine ⟨List.pairwise_singleton _ _, .nil, fun e => ?_,
      fun c => iff_of_false List.not_mem_nil ?_⟩
    · rw [List.mem_singleton]
      refine ⟨?_, fun he => hget e he.1⟩
      rintro rfl
      exact ⟨(get?_onePage hs _).trans (if_pos rfl), hexact⟩
    · rintro ⟨hc, hchunk⟩
      rw [hget c hc, hexact] at hchunk
      exact absurd hchunk Bool.false_ne_true
  | hash =>
    have hcounts := h.pagetable hs
    -- the lists are as long as the counters say
    have htake : ∀ (n : Int) (p : PagetableEntry → Bool), n = tbm.pagetable.count p →
        (sortPages ((scanPages scan tbm).filter p)).take n.toNat = sortedPages scan tbm p := by
      intro n p hn
      refine List.take_of_length_le ((length_sortedPages scan tbm p).trans_le ?_)
      omega
    dsimp only
    rw [htake _ _ hcounts.npages, htake _ _ hcounts.nchunks]
    refine ⟨pairwise_sortedPages scan tbm _, pairwise_sortedPages scan tbm _, fun e => ?_,
      fun c => ?_⟩
    · rw [mem_sortedPages, Exact, table_hash hs, Bool.not_eq_true']
    · rw [mem_sortedPages, table_hash hs]

variable {it : Bitmap.TIDBitmap}

theorem Listed.mem_lossyBlocks (hl : Listed tbm it) (h : Sound tbm.table) :
    k ∈ it.lossyBlocks ↔ Lossy tbm.table k := by
  rw [Bitmap.TIDBitmap.lossyBlocks, List.mem_flatMap]
  constructor
  · rintro ⟨c, hc, hk⟩
    obtain ⟨hget, hchunk⟩ := (hl.chunk c).mp hc
    have hmod := h.aligned _ c hget hchunk
    obtain ⟨i, hi, rfl⟩ := List.mem_map.mp hk
    obtain ⟨hrange, hbit⟩ := List.mem_filter.mp hi
    have hlt := (List.mem_range'_1.mp hrange).2
    simp only [pagesPerChunk] at hmod hlt
    have hpage : chunkPageno (c.blockno + i) = c.blockno := by
      rw [chunkPageno, pagesPerChunk]
      omega
    have hbitno : (c.blockno + i) % pagesPerChunk = i := by
      rw [pagesPerChunk]
      omega
    exact ⟨c, by rw [hpage]; exact hget, hchunk, by rw [hbitno]; exact hbit⟩
  · rintro ⟨c, hget, hchunk, hbit⟩
    have hkey := Keyed.key_of_get? hget
    refine ⟨c, (hl.chunk c).mpr ⟨hkey ▸ hget, hchunk⟩, List.mem_map.mpr ⟨k % pagesPerChunk, ?_, ?_⟩⟩
    · refine List.mem_filter.mpr ⟨List.mem_range'_1.mpr ⟨Nat.zero_le _, ?_⟩, hbit⟩
      have hlt := Nat.mod_lt k (show 0 < pagesPerChunk by decide)
      omega
    · rw [hkey]
      exact Nat.sub_add_cancel (Nat.mod_le k _)

theorem Listed.ordered (hl : Listed tbm it) (h : Sound tbm.table) : it.Ordered where
  spages := hl.spages
  schunks := hl.schunks
  aligned := by
    intro c hc
    obtain ⟨hget, hchunk⟩ := (hl.chunk c).mp hc
    exact h.aligned _ c hget hchunk
  disjoint := by
    intro e he
    rw [hl.mem_lossyBlocks h]
    exact h.exclusive _ e ((hl.exact e).mp he)

/-! ## What an iteration delivers -/

/-- The iteration delivers the pages in turn. -/
theorem yields_tbmNextPage (it : TBMIterator) : Yields Bitmap.tbmNextPage it it.pages := by
  generalize hps : it.pages = ps
  induction ps generalizing it with
  | nil =>
    obtain ⟨it', hnext, _⟩ := Bitmap.tbmNextPage_spec it
    rw [hps] at hnext
    exact .done hnext
  | cons e ps ih =>
    obtain ⟨it', hnext, htail⟩ := Bitmap.tbmNextPage_spec it
    rw [hps] at hnext htail
    exact .more hnext (ih it' htail)

/-- **What an iteration over a tid bitmap reports.** The pages come in the order of their blocks,
each once. Every tid is on a lossy page or among the tids of an exact one, and an exact page that is
not to be checked again has just the tids of the set, which are the ones that are sure. -/
structure Delivers (x : TidSet) (results : List TBMIterateResult) : Prop where
  sorted : (results.map TBMIterateResult.blockno).Pairwise (· < ·)
  covers : ∀ tid ∈ x.all, ∃ r ∈ results, r.blockno = tid.blk ∧
    (r.ntuples = -1 ∨ tid.off ∈ r.offsets)
  lossy : ∀ r ∈ results, r.ntuples = -1 → r.recheck = true
  exact : ∀ r ∈ results, r.ntuples ≠ -1 → r.ntuples = r.offsets.length ∧ (r.recheck = false →
    ∀ off, (off ∈ r.offsets ↔ ∃ tid ∈ x.all, (tid.blk : Nat) = r.blockno ∧ tid.off = off) ∧
      (off ∈ r.offsets ↔ ∃ tid ∈ x.sure, (tid.blk : Nat) = r.blockno ∧ tid.off = off))

/-- The offset numbers of an exact page that is not to be checked again. -/
theorem Covers.mem_offsets {T : Pagetable} (hx : Covers T x) (h : Sound T) (hsub : x.sure ⊆ x.all)
    (he : Exact T k e) (hr : e.recheck = false) (off : Nat) :
    (off ∈ Bitmap.pageOffsets e.has ↔ ∃ tid ∈ x.all, (tid.blk : Nat) = k ∧ tid.off = off) ∧
      (off ∈ Bitmap.pageOffsets e.has ↔ ∃ tid ∈ x.sure, (tid.blk : Nat) = k ∧ tid.off = off) := by
  have hsure : off ∈ Bitmap.pageOffsets e.has →
      ∃ tid ∈ x.sure, (tid.blk : Nat) = k ∧ tid.off = off := by
    intro hmem
    obtain ⟨i, hi, rfl⟩ := List.mem_map.mp hmem
    obtain ⟨hrange, hbit⟩ := List.mem_filter.mp hi
    have hat := hx.sure k e he hr i (List.mem_range.mp hrange) hbit
    have hlt := hat.lt
    rw [Nat.mod_eq_of_lt (show i + 1 < 2 ^ 16 by omega)]
    exact hat
  have hall : (∃ tid ∈ x.all, (tid.blk : Nat) = k ∧ tid.off = off) →
      off ∈ Bitmap.pageOffsets e.has := by
    rintro ⟨tid, htid, rfl, rfl⟩
    have hlt := tid.lt
    have hpos := tid.pos
    rcases hx.all _ _ (at_of_mem htid) with hl | ⟨e', he', hbit⟩
    · exact absurd hl (h.exclusive _ e he)
    · obtain rfl := Option.some.inj (he.1.symm.trans he'.1)
      have hmem := Bitmap.mem_pageOffsets (show tid.off - 1 < 65536 by omega) hbit
      rwa [Nat.sub_add_cancel hpos, Nat.mod_eq_of_lt hlt] at hmem
  have hmono : (∃ tid ∈ x.sure, (tid.blk : Nat) = k ∧ tid.off = off) →
      ∃ tid ∈ x.all, (tid.blk : Nat) = k ∧ tid.off = off :=
    fun ⟨tid, htid, hat⟩ => ⟨tid, hsub htid, hat⟩
  exact ⟨⟨fun hmem => hmono (hsure hmem), hall⟩, ⟨hsure, fun hat => hall (hmono hat)⟩⟩

/-- **Iterating over a tid bitmap.** -/
theorem Represents.delivers (h : Represents tbm x) (hsub : x.sure ⊆ x.all) (scan : HashSeq)
    (uninit : Nat → PagetableEntry) :
    ∃ results, Yields tbmIterate (tbmBeginIterate scan uninit tbm) results ∧
      Delivers x results := by
  have hl := listed_tbmBeginIterate h.ok scan uninit
  have hsound := h.ok.sound
  generalize hit : (tbmBeginIterate scan uninit tbm).tbm = it at hl
  have hpages : (tbmBeginIterate scan uninit tbm).pages = it.pages := by
    rw [← hit]
    rfl
  have hy := yields_tbmNextPage (tbmBeginIterate scan uninit tbm)
  rw [hpages] at hy
  refine ⟨_, hy.map (f := id) (g := Bitmap.tbmIteratePage) fun _ => rfl, ?_⟩
  -- a page is a lossy one or an exact entry
  have hpage : ∀ r ∈ it.pages.map Bitmap.tbmIteratePage,
      (r.ntuples = -1 ∧ r.recheck = true) ∨
        ∃ e, Exact tbm.table e.blockno e ∧ r.blockno = e.blockno ∧ r.ntuples = r.offsets.length ∧
          r.recheck = e.recheck ∧ r.offsets = Bitmap.pageOffsets e.has := by
    intro r hr
    obtain ⟨page, hmem, rfl⟩ := List.mem_map.mp hr
    rcases Bitmap.TIDBitmap.mem_pages.mp hmem with ⟨b, _, rfl⟩ | hmem
    · exact .inl ⟨rfl, rfl⟩
    · have he := (hl.exact page).mp hmem
      refine .inr ⟨page, he, ?_⟩
      rw [Bitmap.tbmIteratePage, if_neg (Bool.eq_false_iff.mp he.2)]
      generalize Bitmap.pageOffsets page.has = offsets
      exact ⟨rfl, rfl, rfl, rfl⟩
  refine ⟨?_, fun tid htid => ?_, fun r hr hlossy => ?_, fun r hr hexact => ?_⟩
  · have hsorted := (hl.ordered hsound).pairwise_pages
    rw [List.map_map]
    rwa [show TBMIterateResult.blockno ∘ Bitmap.tbmIteratePage = PagetableEntry.blockno from
      funext Bitmap.tbmIteratePage_blockno]
  · rcases h.covers.all _ _ (at_of_mem htid) with hlossy | ⟨e, he, hbit⟩
    · have hmem : it.lossyPage tid.blk ∈ it.pages :=
        Bitmap.TIDBitmap.mem_pages.mpr (.inl ⟨_, (hl.mem_lossyBlocks hsound).mpr hlossy, rfl⟩)
      exact ⟨_, List.mem_map_of_mem hmem, rfl, .inl rfl⟩
    · have hkey := Keyed.key_of_get? he.1
      have hmem : e ∈ it.pages :=
        Bitmap.TIDBitmap.mem_pages.mpr (.inr ((hl.exact e).mpr (hkey ▸ he)))
      refine ⟨_, List.mem_map_of_mem hmem, (Bitmap.tbmIteratePage_blockno e).trans hkey, .inr ?_⟩
      have hpos := tid.pos
      have hlt := tid.lt
      have hoff := Bitmap.mem_pageOffsets (show tid.off - 1 < 65536 by omega) hbit
      rw [Nat.sub_add_cancel hpos, Nat.mod_eq_of_lt hlt] at hoff
      rw [Bitmap.tbmIteratePage, if_neg (Bool.eq_false_iff.mp he.2)]
      generalize Bitmap.pageOffsets e.has = offsets at hoff ⊢
      exact hoff
  · rcases hpage r hr with ⟨_, hrecheck⟩ | ⟨e, _, _, hlen, _⟩
    · exact hrecheck
    · omega
  · rcases hpage r hr with ⟨hlossy, _⟩ | ⟨e, he, hblk, hlen, hrecheck, hoffsets⟩
    · exact absurd hlossy hexact
    · refine ⟨hlen, fun hr' off => ?_⟩
      rw [hblk, hoffsets]
      exact h.covers.mem_offsets hsound hsub he (hrecheck.symm.trans hr') off

end Hdb.Tbm
