import Hdb.Tbm.Contents

/-!
# Marking pages as lossy

The counters of a tid bitmap count the entries of its table, which is sound (`TIDBitmap.Ok`).
Marking a page as lossy keeps this, and so does `tbm_lossify`, which marks some pages of its choice
and then, if that is not enough, raises the limit. Whatever it chooses, the table covers what it
covered before, and there are no more entries than the limit allows: a scan that is not stopped
leaves no page but the first ones of their chunks, and there are `2 ^ 22` chunks.
-/

namespace Hdb.Tbm

open Bitmap (PagetableEntry pagesPerChunk)

variable {tbm : TIDBitmap} {T T' : Pagetable} {page e : PagetableEntry} {i j k : Nat}

/-! ## Bits of an entry -/

@[simp] theorem blockno_setBit (page : PagetableEntry) (i : Nat) :
    (setBit page i).blockno = page.blockno := rfl

@[simp] theorem ischunk_setBit (page : PagetableEntry) (i : Nat) :
    (setBit page i).ischunk = page.ischunk := rfl

@[simp] theorem recheck_setBit (page : PagetableEntry) (i : Nat) :
    (setBit page i).recheck = page.recheck := rfl

@[simp] theorem has_zeroPage (k i : Nat) : (zeroPage k).has i = false := BitVec.getLsbD_zero

@[simp] theorem has_zeroChunk (k i : Nat) : (zeroChunk k).has i = false := BitVec.getLsbD_zero

@[simp] theorem has_setBit (page : PagetableEntry) (i j : Nat) :
    (setBit page i).has j = (page.has j || decide (j = i)) := by
  have hmod : j % 64 < 64 := Nat.mod_lt j (by decide)
  rw [PagetableEntry.has, PagetableEntry.has, setBit]
  dsimp only
  by_cases hword : j / 64 = i / 64
  · have hbit : (1#64 <<< (i % 64)).getLsbD (j % 64) = decide (j = i) := by
      rw [BitVec.getLsbD_shiftLeft, BitVec.getLsbD_one, Bool.eq_iff_iff]
      simp only [Bool.and_eq_true, Bool.not_eq_true', decide_eq_true_eq, decide_eq_false_iff_not]
      omega
    rw [hword, Function.update_self, BitVec.getLsbD_or, hbit]
  · have hne : j ≠ i := fun heq => hword (heq ▸ rfl)
    rw [Function.update_of_ne hword, decide_eq_false hne, Bool.or_false]

/-! ## The table of a tid bitmap -/

/-- The table with the only page in it when there is just one. -/
def TIDBitmap.table (tbm : TIDBitmap) : Pagetable :=
  match tbm.status with
  | .empty => .empty
  | .onePage => Keyed.empty.put tbm.entry1
  | .hash => tbm.pagetable

theorem table_empty (hs : tbm.status = .empty) : tbm.table = .empty := by
  rw [TIDBitmap.table, hs]

theorem table_onePage (hs : tbm.status = .onePage) : tbm.table = Keyed.empty.put tbm.entry1 := by
  rw [TIDBitmap.table, hs]

theorem get?_onePage (hs : tbm.status = .onePage) (k : Nat) :
    tbm.table.get? k = if k = tbm.entry1.blockno then some tbm.entry1 else none := by
  rw [table_onePage hs]
  split_ifs with hk
  · rw [hk]
    exact Keyed.get?_put_self _ tbm.entry1
  · exact Keyed.get?_put_ne _ hk

theorem table_hash (hs : tbm.status = .hash) : tbm.table = tbm.pagetable := by
  rw [TIDBitmap.table, hs]

/-- The numbers of exact entries and of chunks. -/
structure Counts (T : Pagetable) (npages nchunks : Int) : Prop where
  npages : npages = T.count fun e => !e.ischunk
  nchunks : nchunks = T.count fun e => e.ischunk

section

variable {npages nchunks : Int} (h : Counts T npages nchunks)

include h

theorem Counts.put_page (hget : T.get? e.blockno = none) (he : e.ischunk = false) :
    Counts (T.put e) (npages + 1) nchunks := by
  obtain ⟨hp, hc⟩ := h
  constructor
  · rw [Keyed.count_put_new hget, he, hp]
    rfl
  · rw [Keyed.count_put_new hget, he, hc]
    rfl

theorem Counts.put_chunk (hget : T.get? e.blockno = none) (he : e.ischunk = true) :
    Counts (T.put e) npages (nchunks + 1) := by
  obtain ⟨hp, hc⟩ := h
  constructor
  · rw [Keyed.count_put_new hget, he, hp]
    rfl
  · rw [Keyed.count_put_new hget, he, hc]
    rfl

theorem Counts.put_same (hget : T.get? e.blockno = some page) (he : e.ischunk = page.ischunk) :
    Counts (T.put e) npages nchunks := by
  obtain ⟨hp, hc⟩ := h
  constructor
  · have hcount := Keyed.count_put_of_get? (p := fun e => !e.ischunk) hget
    rw [he] at hcount
    rw [hp, Nat.add_right_cancel hcount]
  · have hcount := Keyed.count_put_of_get? (p := fun e => e.ischunk) hget
    rw [he] at hcount
    rw [hc, Nat.add_right_cancel hcount]

/-- An exact entry becomes one of a chunk. -/
theorem Counts.put_over (hget : T.get? e.blockno = some page) (hpage : page.ischunk = false)
    (he : e.ischunk = true) : Counts (T.put e) (npages - 1) (nchunks + 1) := by
  obtain ⟨hp, hc⟩ := h
  constructor
  · have hcount := Keyed.count_put_of_get? (p := fun e => !e.ischunk) hget
    simp only [hpage, he, Bool.not_false, Bool.not_true, if_true, Bool.false_eq_true, if_false]
      at hcount
    omega
  · have hcount := Keyed.count_put_of_get? (p := fun e => e.ischunk) hget
    simp only [hpage, he, if_true, Bool.false_eq_true, if_false] at hcount
    omega

theorem Counts.erase_page (hget : T.get? k = some page) (hpage : page.ischunk = false) :
    Counts (T.erase k) (npages - 1) nchunks := by
  obtain ⟨hp, hc⟩ := h
  rw [← Keyed.count_erase hget, hpage] at hp hc
  exact ⟨sub_eq_of_eq_add hp, hc⟩

theorem Counts.erase_chunk (hget : T.get? k = some page) (hpage : page.ischunk = true) :
    Counts (T.erase k) npages (nchunks - 1) := by
  obtain ⟨hp, hc⟩ := h
  rw [← Keyed.count_erase hget, hpage] at hp hc
  exact ⟨hp, sub_eq_of_eq_add hc⟩

end

/-- The counters count the entries. -/
structure TIDBitmap.Counted (tbm : TIDBitmap) : Prop where
  counts : Counts tbm.table tbm.npages tbm.nchunks
  nentries : tbm.nentries = tbm.npages + tbm.nchunks

theorem counted_hash (hs : tbm.status = .hash) (h : Counts tbm.pagetable tbm.npages tbm.nchunks)
    (hentries : tbm.nentries = tbm.npages + tbm.nchunks) : tbm.Counted :=
  ⟨table_hash hs ▸ h, hentries⟩

theorem TIDBitmap.Counted.pagetable (h : tbm.Counted) (hs : tbm.status = .hash) :
    Counts tbm.pagetable tbm.npages tbm.nchunks := table_hash hs ▸ h.counts

/-- **What always holds of a tid bitmap.** -/
structure TIDBitmap.Ok (tbm : TIDBitmap) : Prop extends tbm.Counted where
  limit : 16 ≤ tbm.maxentries ∧ tbm.maxentries ≤ 2 ^ 31 - 2
  onePage : tbm.status = .onePage → tbm.entry1.ischunk = false
  sound : Sound tbm.table

theorem TIDBitmap.Counted.nentries_eq (h : tbm.Counted) : tbm.nentries = tbm.table.keys.length := by
  rw [h.nentries, h.counts.npages, h.counts.nchunks, tbm.table.length_keys fun e => e.ischunk]
  omega

/-- An entry of a table with no lossy page is exact. -/
theorem TIDBitmap.Ok.exact_of_nchunks (h : tbm.Ok) (h0 : tbm.nchunks = 0)
    (he : tbm.table.get? k = some e) : e.ischunk = false := by
  rw [h.counts.nchunks, Nat.cast_eq_zero] at h0
  exact Keyed.count_eq_zero_iff.mp h0 k e he

theorem TIDBitmap.Ok.get?_of_nentries (h : tbm.Ok) (h0 : tbm.nentries = 0) (k : Nat) :
    tbm.table.get? k = none := by
  rw [h.nentries_eq, Nat.cast_eq_zero, List.length_eq_zero_iff] at h0
  cases hget : tbm.table.get? k with
  | none => rfl
  | some e =>
    have hmem := Keyed.mem_keys.mpr ⟨e, hget⟩
    rw [h0] at hmem
    exact absurd hmem List.not_mem_nil

theorem TIDBitmap.Ok.counts_onePage (h : tbm.Ok) (hs : tbm.status = .onePage) :
    tbm.npages = 1 ∧ tbm.nchunks = 0 := by
  have hexact := h.onePage hs
  rw [h.counts.npages, h.counts.nchunks, table_onePage hs, Keyed.count_put_new (Keyed.get?_empty _),
    Keyed.count_put_new (Keyed.get?_empty _), hexact]
  exact ⟨rfl, rfl⟩

/-- A table with more than one page is a hash table. -/
theorem TIDBitmap.Ok.hash_of_nentries (h : tbm.Ok) (h0 : tbm.nentries ≠ 0)
    (hone : tbm.status ≠ .onePage) : tbm.status = .hash := by
  cases hs : tbm.status with
  | empty =>
    have hzero : tbm.nentries = 0 := by
      rw [h.nentries_eq, table_empty hs]
      rfl
    exact absurd hzero h0
  | onePage => exact absurd hs hone
  | hash => rfl

/-- As long as there are lossy pages, the table is a hash table. -/
theorem TIDBitmap.Ok.hash_of_nchunks (h : tbm.Ok) (h0 : tbm.nchunks ≠ 0) : tbm.status = .hash := by
  cases hs : tbm.status with
  | empty =>
    have hzero : tbm.nchunks = 0 := by
      rw [h.counts.nchunks, table_empty hs]
      rfl
    exact absurd hzero h0
  | onePage => exact absurd (h.counts_onePage hs).2 h0
  | hash => rfl

theorem ok_tbmCreate (maxbytes : Int) : (tbmCreate maxbytes).Ok where
  counts := ⟨rfl, rfl⟩
  nentries := rfl
  limit := ⟨le_max_right _ _, max_le (min_le_right _ _) (by decide)⟩
  onePage := fun hs => absurd hs (show TBMStatus.empty ≠ .onePage by decide)
  sound := ⟨fun _ e he => absurd he (Option.some_ne_none e).symm,
    fun _ e he => absurd he.1 (Option.some_ne_none e).symm,
    fun _ e he => absurd he (Option.some_ne_none e).symm⟩

theorem covers_tbmCreate (maxbytes : Int) : Covers (tbmCreate maxbytes).table ⟨∅, ∅⟩ where
  all := fun _ _ ⟨_, h, _⟩ => h.elim
  sure := fun _ e he => absurd he.1 (Option.some_ne_none e).symm

/-! ## Looking up a page -/

theorem tbmPageIsLossy_iff (h : tbm.Ok) : tbmPageIsLossy tbm k = true ↔ Lossy tbm.table k := by
  rw [tbmPageIsLossy]
  by_cases h0 : tbm.nchunks = 0
  · rw [if_pos h0]
    refine iff_of_false Bool.false_ne_true ?_
    rintro ⟨c, hc, hchunk, _⟩
    exact absurd ((h.exact_of_nchunks h0 hc).symm.trans hchunk) Bool.false_ne_true
  · rw [if_neg h0, Lossy, table_hash (h.hash_of_nchunks h0)]
    cases tbm.pagetable.get? (chunkPageno k) with
    | none =>
      refine iff_of_false Bool.false_ne_true ?_
      exact fun ⟨c, hc, _⟩ => absurd hc.symm (Option.some_ne_none c)
    | some c =>
      dsimp only
      rw [Bool.and_eq_true]
      constructor
      · exact fun hc => ⟨c, rfl, hc⟩
      · rintro ⟨_, ⟨⟩, hc⟩
        exact hc

theorem tbmFindPageentry_eq_some_iff (h : tbm.Ok) :
    tbmFindPageentry tbm k = some e ↔ Exact tbm.table k e := by
  have hnone : none = some e ↔ none = some e ∧ e.ischunk = false :=
    iff_of_false (Option.some_ne_none e).symm fun he => absurd he.1.symm (Option.some_ne_none e)
  rw [tbmFindPageentry, Exact]
  by_cases h0 : tbm.nentries = 0
  · rw [if_pos h0, h.get?_of_nentries h0]
    exact hnone
  rw [if_neg h0]
  by_cases hs : tbm.status = .onePage
  · rw [if_pos hs, get?_onePage hs]
    by_cases hk : tbm.entry1.blockno = k
    · rw [if_neg (not_not.mpr hk), if_pos hk.symm]
      constructor
      · rintro ⟨⟩
        exact ⟨rfl, h.onePage hs⟩
      · exact And.left
    · rw [if_pos hk, if_neg (Ne.symm hk)]
      exact hnone
  · rw [if_neg hs, table_hash (h.hash_of_nentries h0 hs)]
    cases tbm.pagetable.get? k with
    | none => exact hnone
    | some page =>
      dsimp only
      constructor
      · intro he
        split_ifs at he with hchunk
        obtain rfl := Option.some.inj he
        exact ⟨rfl, Bool.eq_false_iff.mpr hchunk⟩
      · rintro ⟨⟨⟩, hexact⟩
        rw [if_neg (Bool.eq_false_iff.mp hexact)]

theorem tbmFindPageentry_eq_none_iff (h : tbm.Ok) :
    tbmFindPageentry tbm k = none ↔ ¬∃ e, Exact tbm.table k e := by
  rw [Option.eq_none_iff_forall_ne_some, not_exists]
  exact forall_congr' fun e => not_congr (tbmFindPageentry_eq_some_iff h)

/-! ## Marking a page -/

/-- The entries after a page is marked. -/
theorem marked_of_get? (h : Sound T) (hk : k < 2 ^ 32)
    (hothers : ∀ j, j ≠ k → j ≠ chunkPageno k → T'.get? j = T.get? j)
    (hpage : k ≠ chunkPageno k → T'.get? k = none)
    (hchunk : ∃ c', T'.get? (chunkPageno k) = some c' ∧ c'.ischunk = true ∧
      ∀ i, c'.has i = true ↔ i = k % pagesPerChunk ∨ ∃ c, T.get? (chunkPageno k) = some c ∧
        (c.ischunk = true ∧ c.has i = true ∨ c.ischunk = false ∧ i = 0)) : Marked T T' k := by
  obtain ⟨c', hc', hischunk, hhas⟩ := hchunk
  -- an entry of the new table is the one of the chunk, or an old one
  have hcases : ∀ j e, T'.get? j = some e →
      (j = chunkPageno k ∧ e = c') ∨ (j ≠ k ∧ j ≠ chunkPageno k ∧ T.get? j = some e) := by
    intro j e he
    by_cases hc : j = chunkPageno k
    · subst hc
      exact .inl ⟨rfl, Option.some.inj (he.symm.trans hc')⟩
    by_cases hj : j = k
    · subst hj
      exact absurd ((hpage hc).symm.trans he) (Option.some_ne_none e).symm
    exact .inr ⟨hj, hc, (hothers j hj hc).symm.trans he⟩
  refine ⟨fun j => ?_, fun j e => ?_, fun j e he hech => ?_, fun j e he => ?_⟩
  · by_cases hc : chunkPageno j = chunkPageno k
    · constructor
      · rintro ⟨e, he, _, hbit⟩
        rw [hc] at he
        obtain rfl := Option.some.inj (he.symm.trans hc')
        rcases (hhas _).mp hbit with hmod | ⟨c, hget, ⟨hch, hbit'⟩ | ⟨hex, h0⟩⟩
        · exact .inr (.inl (eq_of_chunkPageno_eq hc hmod))
        · exact .inl ⟨c, hc ▸ hget, hch, hbit'⟩
        · have hj : chunkPageno j = j := chunkPageno_eq_self_iff.mpr h0
          refine .inr (.inr ⟨hj.symm.trans hc, c, ?_, hex⟩)
          rw [← hj, hc]
          exact hget
      · intro hj
        refine ⟨c', hc ▸ hc', hischunk, (hhas _).mpr ?_⟩
        rcases hj with ⟨c, hget, hch, hbit⟩ | rfl | ⟨rfl, c, hget, hex⟩
        · exact .inr ⟨c, hc ▸ hget, .inl ⟨hch, hbit⟩⟩
        · exact .inl rfl
        · exact .inr ⟨c, hget, .inr ⟨hex, chunkPageno_mod k⟩⟩
    · have hne : chunkPageno j ≠ k := fun heq => hc (by rw [← heq, chunkPageno_chunkPageno])
      have hjk : j ≠ k := fun heq => hc (heq ▸ rfl)
      have hjc : j ≠ chunkPageno k := fun heq => hc (by rw [heq, chunkPageno_chunkPageno])
      rw [Lossy, Lossy, hothers _ hne hc]
      exact ⟨.inl, fun hl => hl.resolve_right fun hr => hr.elim hjk fun hr => hjc hr.1⟩
  · constructor
    · rintro ⟨he, hex⟩
      rcases hcases j e he with ⟨_, rfl⟩ | ⟨hj, hc, hget⟩
      · exact absurd (hex.symm.trans hischunk) Bool.false_ne_true
      · exact ⟨⟨hget, hex⟩, hj, hc⟩
    · rintro ⟨⟨hget, hex⟩, hj, hc⟩
      exact ⟨(hothers j hj hc).trans hget, hex⟩
  · rcases hcases j e he with ⟨rfl, _⟩ | ⟨_, _, hget⟩
    · exact chunkPageno_mod k
    · exact h.aligned j e hget hech
  · rcases hcases j e he with ⟨rfl, _⟩ | ⟨_, _, hget⟩
    · exact (chunkPageno_le k).trans_lt hk
    · exact h.valid j e hget

theorem table_tbmCreatePagetable (hs : tbm.status ≠ .hash) :
    (tbmCreatePagetable tbm).table = tbm.table := by
  rw [table_hash rfl, tbmCreatePagetable]
  dsimp only
  cases h : tbm.status with
  | empty => rw [if_neg (by decide), table_empty h]
  | onePage => rw [if_pos rfl, table_onePage h]
  | hash => exact absurd h hs

theorem TIDBitmap.Ok.tbmCreatePagetable (h : tbm.Ok) (hs : tbm.status ≠ .hash) :
    (tbmCreatePagetable tbm).Ok where
  counts := by
    rw [table_tbmCreatePagetable hs]
    exact h.counts
  nentries := h.nentries
  limit := h.limit
  onePage := fun h0 => absurd h0 (show TBMStatus.hash ≠ .onePage by decide)
  sound := by
    rw [table_tbmCreatePagetable hs]
    exact h.sound

theorem status_removePage (tbm : TIDBitmap) (k : Nat) : (removePage tbm k).status = tbm.status := by
  rw [removePage]
  split_ifs
  · rfl
  · rfl

theorem maxentries_removePage (tbm : TIDBitmap) (k : Nat) :
    (removePage tbm k).maxentries = tbm.maxentries := by
  rw [removePage]
  split_ifs
  · rfl
  · rfl

theorem get?_removePage_ne (h : j ≠ k) :
    (removePage tbm k).pagetable.get? j = tbm.pagetable.get? j := by
  rw [removePage]
  split_ifs
  · exact Keyed.get?_erase_ne _ h
  · rfl

theorem get?_removePage_self (h : k % pagesPerChunk ≠ 0) :
    (removePage tbm k).pagetable.get? k = none := by
  rw [removePage]
  by_cases hsome : (tbm.pagetable.get? k).isSome
  · rw [if_pos ⟨h, hsome⟩]
    exact Keyed.get?_erase_self _ k
  · rw [if_neg fun hc => hsome hc.2]
    exact Option.not_isSome_iff_eq_none.mp hsome

/-- Only exact entries are removed. -/
theorem TIDBitmap.Ok.counted_removePage (h : tbm.Ok) (hs : tbm.status = .hash) (k : Nat) :
    (removePage tbm k).Counted := by
  rw [removePage]
  split_ifs with hk
  · obtain ⟨e, he⟩ := Option.isSome_iff_exists.mp hk.2
    have hexact : e.ischunk = false := by
      by_contra hchunk
      exact hk.1 (h.sound.aligned k e (table_hash hs ▸ he) (Bool.not_eq_false _ ▸ hchunk))
    have hentries := h.nentries
    refine counted_hash hs ((h.pagetable hs).erase_page he hexact) ?_
    show tbm.nentries - 1 = tbm.npages - 1 + tbm.nchunks
    omega
  · exact h.toCounted

theorem status_markInChunk (tbm : TIDBitmap) (k : Nat) :
    (markInChunk tbm k).status = tbm.status := by
  rw [markInChunk]
  cases tbm.pagetable.get? (chunkPageno k) with
  | none => rfl
  | some page =>
    dsimp only
    split_ifs
    · rfl
    · rfl

theorem maxentries_markInChunk (tbm : TIDBitmap) (k : Nat) :
    (markInChunk tbm k).maxentries = tbm.maxentries := by
  rw [markInChunk]
  cases tbm.pagetable.get? (chunkPageno k) with
  | none => rfl
  | some page =>
    dsimp only
    split_ifs
    · rfl
    · rfl

theorem get?_markInChunk_ne (h : j ≠ chunkPageno k) :
    (markInChunk tbm k).pagetable.get? j = tbm.pagetable.get? j := by
  rw [markInChunk]
  cases hget : tbm.pagetable.get? (chunkPageno k) with
  | none => exact Keyed.get?_put_ne _ h
  | some page =>
    dsimp only
    split_ifs
    · exact Keyed.get?_put_ne _ (Keyed.key_of_get? hget ▸ h)
    · exact Keyed.get?_put_ne _ h

/-- The entry of the chunk after a page is marked in it. -/
theorem get?_markInChunk_self (tbm : TIDBitmap) (k : Nat) :
    ∃ c', (markInChunk tbm k).pagetable.get? (chunkPageno k) = some c' ∧ c'.ischunk = true ∧
      ∀ i, c'.has i = true ↔ i = k % pagesPerChunk ∨
        ∃ c, tbm.pagetable.get? (chunkPageno k) = some c ∧
          (c.ischunk = true ∧ c.has i = true ∨ c.ischunk = false ∧ i = 0) := by
  rw [markInChunk]
  cases hget : tbm.pagetable.get? (chunkPageno k) with
  | none =>
    refine ⟨_, Keyed.get?_put_self _ _, rfl, fun i => ?_⟩
    rw [has_setBit, has_zeroChunk, Bool.false_or, decide_eq_true_eq]
    exact ⟨.inl, fun h => h.resolve_right fun ⟨c, hc, _⟩ => absurd hc.symm (Option.some_ne_none c)⟩
  | some page =>
    have hkey := Keyed.key_of_get? hget
    by_cases hchunk : page.ischunk = true
    · dsimp only
      rw [if_pos hchunk]
      refine ⟨setBit page (k % pagesPerChunk), ?_, hchunk, fun i => ?_⟩
      · rw [← hkey]
        exact Keyed.get?_put_self _ (setBit page _)
      rw [has_setBit, Bool.or_eq_true, decide_eq_true_eq, or_comm]
      refine or_congr_right ⟨fun h => ⟨page, rfl, .inl ⟨hchunk, h⟩⟩, ?_⟩
      rintro ⟨_, ⟨⟩, ⟨_, h⟩ | ⟨hexact, _⟩⟩
      · exact h
      · exact absurd (hexact.symm.trans hchunk) Bool.false_ne_true
    · dsimp only
      rw [if_neg hchunk]
      have hexact := Bool.eq_false_iff.mpr hchunk
      refine ⟨_, Keyed.get?_put_self _ _, rfl, fun i => ?_⟩
      rw [has_setBit, has_setBit, has_zeroChunk, Bool.false_or, Bool.or_eq_true, decide_eq_true_eq,
        decide_eq_true_eq, or_comm]
      refine or_congr_right ⟨fun h => ⟨page, rfl, .inr ⟨hexact, h⟩⟩, ?_⟩
      rintro ⟨_, ⟨⟩, ⟨h, _⟩ | ⟨_, h⟩⟩
      · exact absurd h hchunk
      · exact h

theorem TIDBitmap.Counted.markInChunk (h : tbm.Counted) (hs : tbm.status = .hash) (k : Nat) :
    (markInChunk tbm k).Counted := by
  have hcounts := h.pagetable hs
  have hentries := h.nentries
  rw [Tbm.markInChunk]
  cases hget : tbm.pagetable.get? (chunkPageno k) with
  | none =>
    refine counted_hash hs (hcounts.put_chunk hget rfl) ?_
    show tbm.nentries + 1 = tbm.npages + (tbm.nchunks + 1)
    omega
  | some page =>
    dsimp only
    split_ifs with hchunk
    · rw [← Keyed.key_of_get? hget] at hget
      exact counted_hash hs (hcounts.put_same hget rfl) hentries
    · refine counted_hash hs (hcounts.put_over hget (Bool.eq_false_iff.mpr hchunk) rfl) ?_
      show tbm.nentries = tbm.npages - 1 + (tbm.nchunks + 1)
      omega

/-- **Marking a page as lossy.** -/
theorem TIDBitmap.Ok.tbmMarkPageLossy (h : tbm.Ok) (hk : k < 2 ^ 32) :
    (tbmMarkPageLossy tbm k).Ok ∧ Marked tbm.table (tbmMarkPageLossy tbm k).table k ∧
      (tbmMarkPageLossy tbm k).maxentries = tbm.maxentries := by
  -- the table is a hash table from the start
  suffices hhash : ∀ t : TIDBitmap, t.Ok → t.status = .hash →
      (markInChunk (removePage t k) k).Ok ∧
      Marked t.table (markInChunk (removePage t k) k).table k ∧
        (markInChunk (removePage t k) k).maxentries = t.maxentries by
    rw [Tbm.tbmMarkPageLossy]
    by_cases hs : tbm.status = .hash
    · rw [if_neg (not_not.mpr hs)]
      exact hhash tbm h hs
    · rw [if_pos hs, ← table_tbmCreatePagetable hs]
      exact hhash _ (h.tbmCreatePagetable hs) rfl
  intro t ht hs
  have hs₁ : (removePage t k).status = .hash := (status_removePage t k).trans hs
  have hs₂ : (markInChunk (removePage t k) k).status = .hash := (status_markInChunk _ k).trans hs₁
  have hmax : (markInChunk (removePage t k) k).maxentries = t.maxentries :=
    (maxentries_markInChunk _ k).trans (maxentries_removePage t k)
  have hmarked : Marked t.table (markInChunk (removePage t k) k).table k := by
    rw [table_hash hs₂]
    refine marked_of_get? ht.sound hk ?_ ?_ ?_
    · intro j hj hc
      rw [get?_markInChunk_ne hc, get?_removePage_ne hj, table_hash hs]
    · intro hc
      rw [get?_markInChunk_ne hc]
      exact get?_removePage_self fun h0 => hc (chunkPageno_eq_self_iff.mpr h0).symm
    · -- the first page of a chunk is not removed
      have hheader :
          (removePage t k).pagetable.get? (chunkPageno k) = t.table.get? (chunkPageno k) := by
        rw [table_hash hs]
        by_cases hc : chunkPageno k = k
        · rw [removePage, if_neg fun h0 => h0.1 (chunkPageno_eq_self_iff.mp hc)]
        · exact get?_removePage_ne hc
      rw [← hheader]
      exact get?_markInChunk_self (removePage t k) k
  refine ⟨⟨(ht.counted_removePage hs k).markInChunk hs₁ k, ?_, ?_, hmarked.sound ht.sound⟩,
    hmarked, hmax⟩
  · rw [hmax]
    exact ht.limit
  · intro h0
    rw [hs₂] at h0
    exact absurd h0 (by decide)

theorem status_tbmMarkPageLossy (tbm : TIDBitmap) (k : Nat) :
    (tbmMarkPageLossy tbm k).status = .hash := by
  rw [tbmMarkPageLossy, status_markInChunk, status_removePage]
  split_ifs with hs
  · rfl
  · exact not_not.mp hs

/-! ## Losing information -/

/-- What is lost when pages become lossy: the table covers what it covered. -/
structure Degraded (tbm tbm' : TIDBitmap) : Prop where
  ok : tbm'.Ok
  covers : ∀ x, Covers tbm.table x → Covers tbm'.table x

theorem TIDBitmap.Ok.degraded (h : tbm.Ok) : Degraded tbm tbm := ⟨h, fun _ hx => hx⟩

theorem Degraded.trans {t t' t'' : TIDBitmap} (h : Degraded t t') (h' : Degraded t' t'') :
    Degraded t t'' :=
  ⟨h'.ok, fun x hx => h'.covers x (h.covers x hx)⟩

/-- After the scan of the entries `ks`: unless the scan was stopped, an exact page that is left is
the first one of its chunk or was not scanned. -/
structure Scanned (ks : List Nat) (tbm tbm' : TIDBitmap) : Prop where
  degraded : Degraded tbm tbm'
  status : tbm'.status = .hash
  maxentries : tbm'.maxentries = tbm.maxentries
  rest : tbm'.nentries ≤ tbm.maxentries / 2 ∨
    ∀ k e, Exact tbm'.table k e → k % pagesPerChunk ≠ 0 → Exact tbm.table k e ∧ k ∉ ks

/-- A key that is not that of an exact page inside a chunk. -/
theorem Scanned.pass {tbm' : TIDBitmap} {ks : List Nat} (h : Scanned ks tbm tbm')
    (hk : ∀ e, Exact tbm.table k e → k % pagesPerChunk = 0) : Scanned (k :: ks) tbm tbm' := by
  refine ⟨h.degraded, h.status, h.maxentries, h.rest.imp_right fun hexact j e he hj => ?_⟩
  obtain ⟨he', hmem⟩ := hexact j e he hj
  refine ⟨he', fun hc => ?_⟩
  rcases List.mem_cons.mp hc with rfl | hc
  · exact hj (hk e he')
  · exact hmem hc

theorem scanned_lossifyScan (ks : List Nat) (h : tbm.Ok) (hs : tbm.status = .hash) :
    Scanned ks tbm (lossifyScan ks tbm) := by
  induction ks generalizing tbm with
  | nil => exact ⟨h.degraded, hs, rfl, .inr fun k e he _ => ⟨he, List.not_mem_nil⟩⟩
  | cons k ks ih =>
    rw [lossifyScan]
    cases hget : tbm.pagetable.get? k with
    | none =>
      refine (ih h hs).pass fun e he => ?_
      rw [table_hash hs] at he
      exact absurd (hget.symm.trans he.1) (Option.some_ne_none e).symm
    | some page =>
      have hkey : page.blockno = k := Keyed.key_of_get? hget
      dsimp only
      by_cases hskip : page.ischunk ∨ page.blockno % pagesPerChunk = 0
      · rw [if_pos hskip]
        refine (ih h hs).pass fun e he => ?_
        rw [table_hash hs] at he
        obtain rfl := Option.some.inj (hget.symm.trans he.1)
        exact hkey ▸ hskip.resolve_left (Bool.eq_false_iff.mp he.2)
      · have hvalid : k < 2 ^ 32 := h.sound.valid k page (table_hash hs ▸ hget)
        obtain ⟨hok, hmarked, hmax⟩ := h.tbmMarkPageLossy hvalid
        have hdeg : Degraded tbm (tbmMarkPageLossy tbm k) :=
          ⟨hok, fun x hx => hmarked.covers_self hx⟩
        rw [if_neg hskip, hkey, hmax]
        split_ifs with hle
        · exact ⟨hdeg, status_tbmMarkPageLossy tbm k, hmax, .inl hle⟩
        · obtain ⟨h₁, h₂, h₃, h₄⟩ := ih hok (status_tbmMarkPageLossy tbm k)
          refine ⟨hdeg.trans h₁, h₂, h₃.trans hmax, ?_⟩
          refine (hmax ▸ h₄).imp_right fun hexact j e he hj => ?_
          obtain ⟨he', hmem⟩ := hexact j e he hj
          obtain ⟨he'', hne, _⟩ := (hmarked.exact j e).mp he'
          refine ⟨he'', fun hc => ?_⟩
          rcases List.mem_cons.mp hc with hc | hc
          · exact hne hc
          · exact hmem hc

/-- There are `2 ^ 22` chunks. -/
theorem length_keys_le (h : Sound T) (hexact : ∀ k e, Exact T k e → k % pagesPerChunk = 0) :
    T.keys.length ≤ 2 ^ 22 := by
  have hall : ∀ k ∈ T.keys, k % pagesPerChunk = 0 ∧ k < 2 ^ 32 := by
    intro k hk
    obtain ⟨e, he⟩ := Keyed.mem_keys.mp hk
    refine ⟨?_, h.valid k e he⟩
    cases hc : e.ischunk with
    | true => exact h.aligned k e he hc
    | false => exact hexact k e ⟨he, hc⟩
  have hnodup : (T.keys.map (· / pagesPerChunk)).Nodup := by
    refine T.nodup.map_on fun j hj k hk heq => ?_
    have hj' := (hall j hj).1
    have hk' := (hall k hk).1
    rw [pagesPerChunk] at heq hj' hk'
    omega
  have hsub : T.keys.map (· / pagesPerChunk) ⊆ List.range (2 ^ 22) := by
    intro q hq
    obtain ⟨k, hk, rfl⟩ := List.mem_map.mp hq
    have hlt := (hall k hk).2
    rw [List.mem_range, pagesPerChunk]
    omega
  calc T.keys.length
      = (T.keys.map (· / pagesPerChunk)).length := (List.length_map _).symm
    _ ≤ (List.range (2 ^ 22)).length := (hnodup.subperm hsub).length_le
    _ = 2 ^ 22 := List.length_range

/-- **Losing some information** brings the table back under the limit. -/
theorem tbmLossify_spec (scan : HashSeq) (h : tbm.Ok) (hs : tbm.status = .hash) :
    Degraded tbm (tbmLossify scan tbm) ∧
      (tbmLossify scan tbm).nentries ≤ (tbmLossify scan tbm).maxentries := by
  obtain ⟨hdeg, hs', hmax, hend⟩ := scanned_lossifyScan (scan.order tbm) h hs
  have hlimit := h.limit
  rw [tbmLossify]
  generalize lossifyScan (scan.order tbm) tbm = t at hdeg hs' hmax hend ⊢
  rw [hmax]
  split_ifs with hlt
  · -- the scan has come to its end, and only the first pages of chunks are left
    have hexact : ∀ k e, Exact t.table k e → k % pagesPerChunk = 0 := by
      intro k e he
      by_contra hk
      obtain ⟨he', hmem⟩ := hend.resolve_left (not_le.mpr hlt) k e he hk
      refine hmem ((scan.perm tbm).mem_iff.mpr (Keyed.mem_keys.mpr ⟨e, ?_⟩))
      exact table_hash hs ▸ he'.1
    have hlen := length_keys_le hdeg.ok.sound hexact
    have hentries := hdeg.ok.nentries_eq
    have hle : t.nentries ≤ 2 ^ 22 := by omega
    refine ⟨⟨⟨⟨?_, hdeg.ok.nentries⟩, ?_, ?_, ?_⟩, ?_⟩, ?_⟩
    · exact hdeg.ok.counts
    · show 16 ≤ min t.nentries ((2 ^ 31 - 2) / 2) * 2 ∧
        min t.nentries ((2 ^ 31 - 2) / 2) * 2 ≤ 2 ^ 31 - 2
      omega
    · exact hdeg.ok.onePage
    · exact hdeg.ok.sound
    · exact hdeg.covers
    · show t.nentries ≤ min t.nentries ((2 ^ 31 - 2) / 2) * 2
      omega
  · exact ⟨hdeg, by omega⟩

/-- A table with more entries than the limit is a hash table. -/
theorem TIDBitmap.Ok.hash_of_lt (h : tbm.Ok) (hlt : tbm.maxentries < tbm.nentries) :
    tbm.status = .hash := by
  have hlimit := h.limit
  refine h.hash_of_nentries (by omega) fun hs => ?_
  have hlen : tbm.table.keys.length = 1 := by
    rw [table_onePage hs]
    rfl
  have hentries := h.nentries_eq
  omega

/-- **What an operation does last** brings the table back under the limit. -/
theorem checkLimit_spec (scan : HashSeq) (h : tbm.Ok) :
    Degraded tbm (checkLimit scan tbm) ∧
      (checkLimit scan tbm).nentries ≤ (checkLimit scan tbm).maxentries := by
  rw [checkLimit]
  split_ifs with hlt
  · exact tbmLossify_spec scan h (h.hash_of_lt hlt)
  · exact ⟨h.degraded, not_lt.mp hlt⟩

end Hdb.Tbm
