import Hdb.Tbm.Marking

/-!
# Adding tids, pages and whole bitmaps

Each operation that adds something ends with a check of the limit, so that the bitmap is under its
limit between two operations, and stands for the old tids and the new ones (`Represents`). An entry
is found or made and then written (`Written`). If it is that of an exact page, the page gets the new
tids. If it is a chunk, the page is the first one of it and becomes lossy.
-/

namespace Hdb.Tbm

open Bitmap (PagetableEntry BmHrlWord pagesPerChunk wordsPerHeapPage)

variable {tbm a b : TIDBitmap} {page e : PagetableEntry} {i j k : Nat} {x y : TidSet}

/-- **What a tid bitmap stands for.** -/
structure Represents (tbm : TIDBitmap) (x : TidSet) : Prop where
  ok : tbm.Ok
  covers : Covers tbm.table x
  fits : tbm.nentries ≤ tbm.maxentries

theorem represents_checkLimit (scan : HashSeq) (h : tbm.Ok) (hx : Covers tbm.table x) :
    Represents (checkLimit scan tbm) x :=
  let ⟨hdeg, hle⟩ := checkLimit_spec scan h
  ⟨hdeg.ok, hdeg.covers x hx, hle⟩

theorem Represents.mono (h : Represents tbm x) (hall : y.all ⊆ x.all) (hsure : x.sure ⊆ y.sure) :
    Represents tbm y :=
  ⟨h.ok, h.covers.mono hall hsure, h.fits⟩

theorem represents_tbmCreate (maxbytes : Int) : Represents (tbmCreate maxbytes) ⟨∅, ∅⟩ where
  ok := ok_tbmCreate maxbytes
  covers := covers_tbmCreate maxbytes
  fits := (show (0 : Int) ≤ 16 by decide).trans (ok_tbmCreate maxbytes).limit.1

/-! ## Writing an entry -/

/-- `tbm'` is `tbm` with the entry `page` in the place of the one of its page. -/
structure Written (tbm : TIDBitmap) (page : PagetableEntry) (tbm' : TIDBitmap) : Prop where
  counted : tbm'.Counted
  maxentries : tbm'.maxentries = tbm.maxentries
  onePage : tbm'.status = .onePage → tbm'.entry1.ischunk = false
  self : tbm'.table.get? page.blockno = some page
  others : ∀ j ≠ page.blockno, tbm'.table.get? j = tbm.table.get? j

/-- The entry of a page is found, or a new one without tids is made. -/
def Found (tbm : TIDBitmap) (k : Nat) (page : PagetableEntry) : Prop :=
  tbm.table.get? k = some page ∨ tbm.table.get? k = none ∧ page = zeroPage k

/-- An entry can be written to after it is found. -/
def Writable (tbm : TIDBitmap) (k : Nat) (r : TIDBitmap × PagetableEntry) : Prop :=
  r.2.blockno = k ∧ Found tbm k r.2 ∧ ∀ page, page.blockno = k → page.ischunk = r.2.ischunk →
    Written tbm page (writePage r.1 page)

/-- Writing an entry of the hash table. -/
theorem written_put (hs : a.status = .hash)
    (hcounts : Counts (a.pagetable.put page) a.npages a.nchunks)
    (hentries : a.nentries = a.npages + a.nchunks) (hmax : a.maxentries = tbm.maxentries)
    (hothers : ∀ j ≠ page.blockno, a.pagetable.get? j = tbm.table.get? j) :
    Written tbm page (writePage a page) := by
  have hne : ¬a.status = .onePage := by
    rw [hs]
    decide
  have hs' : { a with pagetable := a.pagetable.put page }.status = .hash := hs
  rw [writePage, if_neg hne]
  refine ⟨counted_hash hs' hcounts hentries, hmax, fun h0 => absurd h0 hne, ?_, fun j hj => ?_⟩
  · rw [table_hash hs']
    exact Keyed.get?_put_self _ page
  · rw [table_hash hs', ← hothers j hj]
    exact Keyed.get?_put_ne _ hj

theorem writable_enterPage (h : tbm.Ok) (hs : tbm.status = .hash) (k : Nat) :
    Writable tbm k (enterPage tbm k) := by
  have hcounts := h.pagetable hs
  rw [enterPage, Writable, Found, table_hash hs]
  cases hget : tbm.pagetable.get? k with
  | some page =>
    obtain rfl := Keyed.key_of_get? hget
    refine ⟨rfl, .inl rfl, fun page' hkey hchunk => ?_⟩
    refine written_put hs (hcounts.put_same (hkey ▸ hget) hchunk) h.nentries rfl fun j _ => ?_
    rw [table_hash hs]
  | none =>
    have hself : (tbm.pagetable.put (zeroPage k)).get? k = some (zeroPage k) :=
      Keyed.get?_put_self _ (zeroPage k)
    have hnew : Counts (tbm.pagetable.put (zeroPage k)) (tbm.npages + 1) tbm.nchunks :=
      hcounts.put_page hget rfl
    refine ⟨rfl, .inr ⟨rfl, rfl⟩, fun page' hkey hchunk => ?_⟩
    refine written_put hs (hnew.put_same (hkey ▸ hself) hchunk) ?_ rfl fun j hj => ?_
    · show tbm.nentries + 1 = tbm.npages + 1 + tbm.nchunks
      rw [h.nentries]
      omega
    · rw [table_hash hs]
      exact Keyed.get?_put_ne _ (hkey ▸ hj)

/-- Writing the only page. -/
theorem written_onePage (hs : a.status = .onePage) (hpages : a.npages = 1) (hchunks : a.nchunks = 0)
    (hentries : a.nentries = 1) (hmax : a.maxentries = tbm.maxentries)
    (hothers : ∀ j ≠ page.blockno, tbm.table.get? j = none) (hpage : page.ischunk = false) :
    Written tbm page (writePage a page) := by
  have hcounts : Counts (Keyed.empty.put page) (0 + 1) 0 :=
    Counts.put_page ⟨rfl, rfl⟩ (Keyed.get?_empty _) hpage
  have hs' : { a with entry1 := page }.status = .onePage := hs
  rw [writePage, if_pos hs]
  refine ⟨⟨?_, ?_⟩, hmax, fun _ => hpage, ?_, fun j hj => ?_⟩
  · rw [table_onePage hs']
    show Counts _ a.npages a.nchunks
    rw [hpages, hchunks]
    exact hcounts
  · show a.nentries = a.npages + a.nchunks
    rw [hentries, hpages, hchunks]
    rfl
  · rw [table_onePage hs']
    exact Keyed.get?_put_self _ page
  · rw [table_onePage hs', hothers j hj]
    exact Keyed.get?_put_ne _ hj

theorem writable_tbmGetPageentry (h : tbm.Ok) (k : Nat) :
    Writable tbm k (tbmGetPageentry tbm k) := by
  have hcounts := h.counts
  have hentries := h.nentries
  rw [tbmGetPageentry]
  cases hs : tbm.status with
  | empty =>
    have hpages : tbm.npages = 0 := by rw [hcounts.npages, table_empty hs]; rfl
    have hchunks : tbm.nchunks = 0 := by rw [hcounts.nchunks, table_empty hs]; rfl
    have hnone : ∀ j, tbm.table.get? j = none := fun j => by rw [table_empty hs, Keyed.get?_empty]
    refine ⟨rfl, .inr ⟨hnone k, rfl⟩, fun page _ hchunk => ?_⟩
    refine written_onePage rfl ?_ hchunks ?_ rfl (fun j _ => hnone j) hchunk
    · show tbm.npages + 1 = 1
      omega
    · show tbm.nentries + 1 = 1
      omega
  | onePage =>
    dsimp only
    split_ifs with hk
    · subst hk
      obtain ⟨hpages, hchunks⟩ := h.counts_onePage hs
      have hone : tbm.nentries = 1 := by omega
      refine ⟨rfl, .inl ((get?_onePage hs _).trans (if_pos rfl)), fun page hkey hchunk => ?_⟩
      refine written_onePage hs hpages hchunks hone rfl (fun j hj => ?_)
        (hchunk.trans (h.onePage hs))
      rw [get?_onePage hs, if_neg (hkey ▸ hj)]
    · have hne : tbm.status ≠ .hash := by
        rw [hs]
        decide
      have htable := table_tbmCreatePagetable hne
      obtain ⟨hkey, hfound, hwrite⟩ := writable_enterPage (h.tbmCreatePagetable hne) rfl k
      rw [Found, htable] at hfound
      refine ⟨hkey, hfound, fun page hpage hchunk => ?_⟩
      obtain ⟨h₁, h₂, h₃, h₄, h₅⟩ := hwrite page hpage hchunk
      exact ⟨h₁, h₂, h₃, h₄, htable ▸ h₅⟩
  | hash => exact writable_enterPage h hs k

section

variable {tbm' : TIDBitmap} (hw : Written tbm page tbm')

include hw

theorem Written.ok (h : tbm.Ok) (hsound : Sound tbm'.table) : tbm'.Ok :=
  ⟨hw.counted, hw.maxentries ▸ h.limit, hw.onePage, hsound⟩

variable (hf : Found tbm page.blockno e) (hk : page.blockno < 2 ^ 32)

include hf hk

/-- Setting the bit of the first page of a chunk in the entry of the chunk. -/
theorem Written.marked (h : tbm.Ok) (he : e.ischunk = true) (hpage : page.ischunk = true)
    (hhas : ∀ i, page.has i = (e.has i || decide (i = 0))) :
    Marked tbm.table tbm'.table page.blockno := by
  have hget : tbm.table.get? page.blockno = some e := by
    rcases hf with hget | ⟨_, rfl⟩
    · exact hget
    · exact absurd he Bool.false_ne_true
  have hmod := h.sound.aligned _ e hget he
  have hc : chunkPageno page.blockno = page.blockno := chunkPageno_eq_self_iff.mpr hmod
  refine marked_of_get? h.sound hk (fun j hj _ => hw.others j hj) (fun h0 => absurd hc.symm h0) ?_
  rw [hc, hmod]
  refine ⟨page, hw.self, hpage, fun i => ?_⟩
  rw [hhas, Bool.or_eq_true, decide_eq_true_eq, or_comm]
  refine or_congr_right ⟨fun hi => ⟨e, hget, .inl ⟨he, hi⟩⟩, ?_⟩
  rintro ⟨c, hc', ⟨_, hi⟩ | ⟨hexact, _⟩⟩
  · exact Option.some.inj (hget.symm.trans hc') ▸ hi
  · obtain rfl := Option.some.inj (hget.symm.trans hc')
    exact absurd (hexact.symm.trans he) Bool.false_ne_true

/-- Adding tids to an exact page. -/
theorem Written.merged (hl : ¬Lossy tbm.table page.blockno) (he : e.ischunk = false)
    (hpage : page.ischunk = false) {bits : Nat → Bool} {recheck : Bool}
    (hhas : ∀ i < 65536, page.has i = (e.has i || bits i))
    (hr : page.recheck = (e.recheck || recheck)) :
    Merged tbm.table tbm'.table page.blockno bits recheck := by
  refine ⟨fun j => ?_, hl, hk, hw.others, page, ⟨hw.self, hpage⟩, ?_⟩
  · -- no chunk is written
    by_cases hj : chunkPageno j = page.blockno
    · rw [Lossy, Lossy, hj]
      refine iff_of_false ?_ ?_
      · rintro ⟨c, hc, hchunk, _⟩
        obtain rfl := Option.some.inj (hw.self.symm.trans hc)
        exact absurd (hpage.symm.trans hchunk) Bool.false_ne_true
      · rintro ⟨c, hc, hchunk, _⟩
        rcases hf with hget | ⟨hnone, _⟩
        · obtain rfl := Option.some.inj (hget.symm.trans hc)
          exact absurd (he.symm.trans hchunk) Bool.false_ne_true
        · exact absurd (hnone.symm.trans hc) (Option.some_ne_none c).symm
    · rw [Lossy, Lossy, hw.others _ hj]
  · rcases hf with hget | ⟨hnone, rfl⟩
    · exact .inr ⟨e, ⟨hget, he⟩, hhas, hr⟩
    · refine .inl ⟨hnone, fun i hi => ?_, hr⟩
      rw [hhas i hi, has_zeroPage, Bool.false_or]

end

/-! ## Adding tids and pages -/

/-- Add tids. -/
def TidSet.add (x : TidSet) (S : Set ItemPointer) (recheck : Bool) : TidSet :=
  ⟨x.all ∪ S, if recheck then x.sure else x.sure ∪ S⟩

/-- Add the tids of a page. -/
def TidSet.addPage (x : TidSet) (k : Nat) : TidSet := ⟨x.all ∪ onPages {k}, x.sure⟩

theorem TidSet.add_add (x : TidSet) (S S' : Set ItemPointer) (recheck : Bool) :
    (x.add S recheck).add S' recheck = x.add (S ∪ S') recheck := by
  rw [TidSet.add, TidSet.add, TidSet.add, Set.union_assoc]
  cases recheck with
  | true => rfl
  | false => exact congrArg _ (Set.union_assoc _ _ _)

theorem TidSet.sure_subset_add (x : TidSet) (S : Set ItemPointer) (recheck : Bool) :
    x.sure ⊆ (x.add S recheck).sure := by
  cases recheck with
  | true => exact subset_rfl
  | false => exact Set.subset_union_left

/-- The tids of lossy pages are covered. -/
theorem Covers.add_lossy {T : Pagetable} (hx : Covers T x) {S : Set ItemPointer}
    (hS : ∀ tid ∈ S, Lossy T tid.blk) : Covers T ⟨x.all ∪ S, x.sure⟩ := by
  refine ⟨fun k i hat => ?_, hx.sure⟩
  rcases at_union.mp hat with hat | ⟨tid, htid, rfl, _⟩
  · exact hx.all k i hat
  · exact .inl (hS tid htid)

/-- **Adding a tid.** -/
theorem Represents.addTuple (h : Represents tbm x) (scan : HashSeq) (recheck : Bool)
    (tid : ItemPointer) : Represents (addTuple scan recheck tbm tid) (x.add {tid} recheck) := by
  have hk : (tid.blk : Nat) < 2 ^ 32 := tid.blk.isLt
  rw [Tbm.addTuple]
  by_cases hl : tbmPageIsLossy tbm tid.blk = true
  · rw [if_pos hl]
    rw [tbmPageIsLossy_iff h.ok] at hl
    have hcovers := h.covers.add_lossy (S := {tid}) fun _ ht => Set.mem_singleton_iff.mp ht ▸ hl
    exact ⟨h.ok, hcovers.mono subset_rfl (x.sure_subset_add _ _), h.fits⟩
  rw [if_neg hl]
  rw [tbmPageIsLossy_iff h.ok] at hl
  obtain ⟨hkey, hfound, hwrite⟩ := writable_tbmGetPageentry h.ok tid.blk
  generalize tbmGetPageentry tbm tid.blk = r at hkey hfound hwrite ⊢
  obtain ⟨t, e⟩ := r
  dsimp only at hkey hfound hwrite ⊢
  generalize hpage : ({ setBit e (if e.ischunk then 0 else tid.off - 1) with
    recheck := (setBit e (if e.ischunk then 0 else tid.off - 1)).recheck || recheck } :
      PagetableEntry) = page
  have hblk : page.blockno = tid.blk := by rw [← hpage]; exact hkey
  have hchunk : page.ischunk = e.ischunk := by rw [← hpage]; rfl
  have hhas : ∀ i, page.has i = (e.has i || decide (i = if e.ischunk then 0 else tid.off - 1)) := by
    intro i
    rw [← hpage]
    exact has_setBit e _ i
  have hr : page.recheck = (e.recheck || recheck) := by rw [← hpage]; rfl
  have hw := hwrite page hblk hchunk
  rw [← hblk] at hl hk hfound
  by_cases he : e.ischunk = true
  · rw [if_pos he] at hhas
    have hm := hw.marked hfound hk h.ok he (hchunk.trans he) hhas
    refine represents_checkLimit scan (hw.ok h.ok (hm.sound h.ok.sound)) ?_
    have hS : {tid} ⊆ onPages {page.blockno} := Set.singleton_subset_iff.mpr hblk.symm
    exact (hm.covers h.covers hS).mono subset_rfl (x.sure_subset_add _ _)
  · rw [if_neg he] at hhas
    rw [Bool.not_eq_true] at he
    have hm := hw.merged hfound hk hl he (hchunk.trans he) (fun i _ => hhas i) hr
    refine represents_checkLimit scan (hw.ok h.ok (hm.sound h.ok.sound)) ?_
    have hcovers : Covers (writePage t page).table
        ⟨x.all ∪ {tid}, x.sure ∪ if recheck then ∅ else {tid}⟩ := by
      refine hm.covers h.covers ?_ ?_
      · intro j i hat
        obtain ⟨rfl, hoff⟩ := at_singleton.mp hat
        exact ⟨hblk.symm, decide_eq_true (by omega)⟩
      · rintro rfl i _ hbit
        have hoff := of_decide_eq_true hbit
        have hpos := tid.pos
        exact at_singleton.mpr ⟨hblk, by omega⟩
    refine hcovers.mono subset_rfl ?_
    cases recheck with
    | true => exact Set.union_subset subset_rfl (Set.empty_subset _)
    | false => exact subset_rfl

/-- **Adding tids.** -/
theorem Represents.tbmAddTuples (h : Represents tbm x) (scan : HashSeq) (tids : List ItemPointer)
    (recheck : Bool) :
    Represents (tbmAddTuples scan tbm tids recheck) (x.add {tid | tid ∈ tids} recheck) := by
  rw [Tbm.tbmAddTuples]
  induction tids generalizing tbm x with
  | nil =>
    refine h.mono ?_ (x.sure_subset_add _ _)
    exact Set.union_subset subset_rfl fun tid htid => absurd htid List.not_mem_nil
  | cons tid tids ih =>
    have hset : {t | t ∈ tid :: tids} = {tid} ∪ {t | t ∈ tids} := Set.ext fun t => List.mem_cons
    rw [List.foldl_cons, hset, ← TidSet.add_add]
    exact ih (h.addTuple scan recheck tid)

/-- **Adding a page.** -/
theorem Represents.tbmAddPage (h : Represents tbm x) (scan : HashSeq) (pageno : BlockNumber) :
    Represents (tbmAddPage scan tbm pageno) (x.addPage pageno) := by
  obtain ⟨hok, hm, _⟩ := h.ok.tbmMarkPageLossy pageno.isLt
  exact represents_checkLimit scan hok (hm.covers h.covers subset_rfl)

/-! ## The union -/

/-- The pages in `P` are marked as lossy. -/
structure MarkedAll (P : Set Nat) (tbm tbm' : TIDBitmap) : Prop where
  ok : tbm'.Ok
  covers : ∀ x, Covers tbm.table x → Covers tbm'.table ⟨x.all ∪ onPages P, x.sure⟩

theorem markedAll_empty (h : tbm.Ok) : MarkedAll ∅ tbm tbm :=
  ⟨h, fun _ hx => hx.mono (Set.union_subset subset_rfl fun _ htid => htid.elim) subset_rfl⟩

theorem MarkedAll.mono {P Q : Set Nat} (h : MarkedAll P tbm a) (hsub : Q ⊆ P) : MarkedAll Q tbm a :=
  ⟨h.ok, fun x hx => (h.covers x hx).mono
    (Set.union_subset_union_right _ fun _ htid => hsub htid) subset_rfl⟩

theorem MarkedAll.trans {P Q R : Set Nat} (h : MarkedAll P tbm a) (h' : MarkedAll Q a b)
    (hsub : R ⊆ P ∪ Q) : MarkedAll R tbm b where
  ok := h'.ok
  covers := by
    intro x hx
    refine (h'.covers _ (h.covers x hx)).mono ?_ subset_rfl
    rw [Set.union_assoc]
    exact Set.union_subset_union_right _ fun tid htid => hsub htid

theorem unionBits_spec (n : Nat) (w : BmHrlWord) (pg : Nat) (ha : a.Ok) (hpg : pg + n ≤ 2 ^ 32) :
    MarkedAll {k | ∃ i < n, w.getLsbD i = true ∧ k = pg + i} a (unionBits n w pg a) := by
  induction n generalizing w pg a with
  | zero =>
    refine (markedAll_empty ha).mono ?_
    exact fun k ⟨i, hi, _⟩ => absurd hi i.not_lt_zero
  | succ n ih =>
    rw [unionBits]
    by_cases hw : w = 0
    · rw [if_pos hw]
      refine (markedAll_empty ha).mono ?_
      rintro k ⟨i, _, hbit, _⟩
      rw [hw] at hbit
      exact absurd (hbit.symm.trans BitVec.getLsbD_zero) (by decide)
    rw [if_neg hw]
    have hfirst : MarkedAll {k | w.getLsbD 0 = true ∧ k = pg} a
        (if w.getLsbD 0 then tbmMarkPageLossy a pg else a) := by
      split_ifs with hbit
      · obtain ⟨hok, hm, _⟩ := ha.tbmMarkPageLossy (show pg < 2 ^ 32 by omega)
        exact ⟨hok, fun x hx => hm.covers hx fun tid htid => htid.2⟩
      · exact (markedAll_empty ha).mono fun k hk => absurd hk.1 hbit
    refine hfirst.trans (ih (w >>> 1) (pg + 1) hfirst.ok (by omega)) ?_
    rintro k ⟨i, hi, hbit, rfl⟩
    cases i with
    | zero => exact .inl ⟨hbit, rfl⟩
    | succ i =>
      refine .inr ⟨i, by omega, ?_, by omega⟩
      rw [BitVec.getLsbD_ushiftRight, Nat.add_comm]
      exact hbit

theorem unionWords_spec (bpage : PagetableEntry) (n wordnum : Nat) (ha : a.Ok)
    (hpg : bpage.blockno + (wordnum + n) * 64 ≤ 2 ^ 32) :
    MarkedAll {k | ∃ i, wordnum * 64 ≤ i ∧ i < (wordnum + n) * 64 ∧ bpage.has i = true ∧
      k = bpage.blockno + i} a (unionWords bpage n wordnum a) := by
  induction n generalizing wordnum a with
  | zero =>
    refine (markedAll_empty ha).mono ?_
    rintro k ⟨i, h₁, h₂, _⟩
    omega
  | succ n ih =>
    have hword := unionBits_spec 64 (bpage.words wordnum) (bpage.blockno + wordnum * 64) ha
      (by omega)
    refine hword.trans (ih (wordnum + 1) hword.ok (by omega)) ?_
    rintro k ⟨i, h₁, h₂, hbit, rfl⟩
    by_cases hi : i / 64 = wordnum
    · rw [PagetableEntry.has, hi] at hbit
      exact .inl ⟨i % 64, Nat.mod_lt i (by decide), hbit, by omega⟩
    · exact .inr ⟨i, by omega, by omega, hbit, rfl⟩

/-- The pages that an entry stands for. -/
def pagesOf (e : PagetableEntry) : Set Nat :=
  {k | if e.ischunk then ∃ i < pagesPerChunk, e.has i = true ∧ k = e.blockno + i else k = e.blockno}

/-- Every page of a table is one of an entry. -/
theorem mem_pagesOf_of_lossy {T : Pagetable} (h : Lossy T k) :
    ∃ e, T.get? e.blockno = some e ∧ k ∈ pagesOf e := by
  obtain ⟨c, hc, hchunk, hbit⟩ := h
  have hkey := Keyed.key_of_get? hc
  refine ⟨c, hkey ▸ hc, ?_⟩
  rw [pagesOf, Set.mem_ofPred_eq, if_pos hchunk]
  refine ⟨k % pagesPerChunk, Nat.mod_lt k (by decide), hbit, ?_⟩
  rw [hkey]
  exact (Nat.sub_add_cancel (Nat.mod_le k _)).symm

theorem mem_pagesOf_of_exact {T : Pagetable} (h : Exact T k e) :
    T.get? e.blockno = some e ∧ k ∈ pagesOf e := by
  have hkey := Keyed.key_of_get? h.1
  refine ⟨hkey ▸ h.1, ?_⟩
  rw [pagesOf, Set.mem_ofPred_eq, if_neg (Bool.eq_false_iff.mp h.2)]
  exact hkey.symm

theorem has_orPage (e f : PagetableEntry) :
    ∀ i < 65536, (orPage e f).has i = (e.has i || f.has i) := by
  intro i hi
  have hword : i / 64 < wordsPerHeapPage := by
    show i / 64 < 1024
    omega
  rw [PagetableEntry.has, PagetableEntry.has, PagetableEntry.has, orPage]
  dsimp only
  rw [if_pos hword, BitVec.getLsbD_or]

/-- **The union with one page.** -/
theorem Represents.tbmUnionPage (ha : Represents a x) (scan : HashSeq) {T : Pagetable}
    (hT : Sound T) (hy : Covers T y) (hsure : y.sure ⊆ x.sure) (hget : T.get? e.blockno = some e) :
    Represents (tbmUnionPage scan a e) ⟨x.all ∪ (y.all ∩ onPages (pagesOf e)), x.sure⟩ := by
  have hk := hT.valid _ e hget
  rw [Tbm.tbmUnionPage, pagesOf]
  by_cases he : e.ischunk = true
  · -- a chunk: its pages are marked one by one
    have hmod := hT.aligned _ e hget he
    rw [if_pos he]
    simp only [he, if_true]
    have hpg : e.blockno + (0 + wordsPerChunk) * 64 ≤ 2 ^ 32 := by
      rw [pagesPerChunk] at hmod
      show e.blockno + (0 + 16) * 64 ≤ 2 ^ 32
      omega
    obtain ⟨hok, hcovers⟩ := unionWords_spec e wordsPerChunk 0 ha.ok hpg
    refine represents_checkLimit scan hok ((hcovers x ha.covers).mono ?_ subset_rfl)
    refine Set.union_subset_union_right _ fun tid htid => ?_
    obtain ⟨i, hi, hbit, hblk⟩ := htid.2
    exact ⟨i, by omega, hi, hbit, hblk⟩
  rw [if_neg he]
  simp only [he, Bool.false_eq_true, if_false]
  rw [Bool.not_eq_true] at he
  by_cases hl : tbmPageIsLossy a e.blockno = true
  · rw [if_pos hl]
    rw [tbmPageIsLossy_iff ha.ok] at hl
    refine ⟨ha.ok, ha.covers.add_lossy fun tid htid => ?_, ha.fits⟩
    have hblk : (tid.blk : Nat) = e.blockno := htid.2
    exact hblk ▸ hl
  rw [if_neg hl]
  rw [tbmPageIsLossy_iff ha.ok] at hl
  obtain ⟨hkey, hfound, hwrite⟩ := writable_tbmGetPageentry ha.ok e.blockno
  generalize tbmGetPageentry a e.blockno = r at hkey hfound hwrite ⊢
  obtain ⟨t, apage⟩ := r
  dsimp only at hkey hfound hwrite ⊢
  by_cases hc : apage.ischunk = true
  · -- the header of a chunk: the page becomes lossy
    rw [if_pos hc]
    have hw := hwrite (setBit apage 0) hkey rfl
    have hblk : (setBit apage 0).blockno = e.blockno := hkey
    have hm := hw.marked (hblk ▸ hfound) (hblk ▸ hk) ha.ok hc hc (has_setBit apage 0)
    refine represents_checkLimit scan (hw.ok ha.ok (hm.sound ha.ok.sound)) ?_
    exact hm.covers ha.covers fun tid htid => htid.2.trans hblk.symm
  · rw [if_neg hc]
    rw [Bool.not_eq_true] at hc
    have hw := hwrite (orPage apage e) hkey rfl
    have hblk : (orPage apage e).blockno = e.blockno := hkey
    have hm := hw.merged (hblk ▸ hfound) (hblk ▸ hk) (hblk ▸ hl) hc hc (has_orPage apage e) rfl
    refine represents_checkLimit scan (hw.ok ha.ok (hm.sound ha.ok.sound)) ?_
    rw [hblk] at hm
    refine (hm.covers ha.covers (Q := y.sure) ?_ ?_).mono subset_rfl
      (Set.union_subset subset_rfl hsure)
    · intro j i hat
      obtain rfl : j = e.blockno := hat.page
      refine ⟨rfl, ?_⟩
      rcases hy.all _ i (hat.mono Set.inter_subset_left) with hl' | ⟨e', he', hbit⟩
      · exact absurd hl' (hT.exclusive _ e ⟨hget, he⟩)
      · exact Option.some.inj (hget.symm.trans he'.1) ▸ hbit
    · exact fun hr' => hy.sure _ e ⟨hget, he⟩ hr'

/-- The union and the intersection of two sets. -/
def TidSet.union (x y : TidSet) : TidSet := ⟨x.all ∪ y.all, x.sure ∪ y.sure⟩

def TidSet.inter (x y : TidSet) : TidSet := ⟨x.all ∩ y.all, x.sure ∩ y.sure⟩

theorem mem_scanPages (scan : HashSeq) :
    e ∈ scanPages scan b ↔ b.pagetable.get? e.blockno = some e := by
  rw [scanPages, List.mem_filterMap]
  constructor
  · rintro ⟨k, _, hk⟩
    exact Keyed.key_of_get? hk ▸ hk
  · intro he
    exact ⟨_, (scan.perm b).mem_iff.mpr (Keyed.mem_keys.mpr ⟨e, he⟩), he⟩

/-- The union with some pages of a table. -/
theorem represents_unionPages (scan : HashSeq) {T : Pagetable} (hT : Sound T) (hy : Covers T y)
    (pages : List PagetableEntry) (hpages : ∀ e ∈ pages, T.get? e.blockno = some e)
    (ha : Represents a x) (hsure : y.sure ⊆ x.sure) :
    Represents (pages.foldl (tbmUnionPage scan) a)
      ⟨x.all ∪ (y.all ∩ onPages {k | ∃ e ∈ pages, k ∈ pagesOf e}), x.sure⟩ := by
  induction pages generalizing a x with
  | nil =>
    refine ha.mono (Set.union_subset subset_rfl ?_) subset_rfl
    rintro tid ⟨_, e, he, _⟩
    exact absurd he List.not_mem_nil
  | cons e pages ih =>
    have hstep := ha.tbmUnionPage scan hT hy hsure (hpages e List.mem_cons_self)
    refine (ih (fun e' he' => hpages e' (List.mem_cons_of_mem e he')) hstep hsure).mono ?_
      subset_rfl
    rw [Set.union_assoc]
    refine Set.union_subset_union_right _ ?_
    rintro tid ⟨htid, e', he', hmem⟩
    rcases List.mem_cons.mp he' with rfl | he'
    · exact .inl ⟨htid, hmem⟩
    · exact .inr ⟨htid, e', he', hmem⟩

/-- **The union** stands for the union of the sets. -/
theorem Represents.tbmUnion (ha : Represents a x) (hb : Represents b y) (scan : HashSeq) :
    Represents (tbmUnion scan a b) (x.union y) := by
  have ha' : Represents a ⟨x.all, x.sure ∪ y.sure⟩ := ha.mono subset_rfl Set.subset_union_left
  -- it is enough that every tid is on a page of some entry
  have hcovered : ∀ pages : List PagetableEntry,
    (∀ e, b.table.get? e.blockno = some e → e ∈ pages) →
      x.all ∪ y.all ⊆ x.all ∪ (y.all ∩ onPages {k | ∃ e ∈ pages, k ∈ pagesOf e}) := by
    intro pages hpages
    refine Set.union_subset_union_right _ fun tid htid => ⟨htid, ?_⟩
    rcases hb.covers.all _ _ (at_of_mem htid) with hl | ⟨e, he, _⟩
    · obtain ⟨e, hget, hmem⟩ := mem_pagesOf_of_lossy hl
      exact ⟨e, hpages e hget, hmem⟩
    · obtain ⟨hget, hmem⟩ := mem_pagesOf_of_exact he
      exact ⟨e, hpages e hget, hmem⟩
  rw [Tbm.tbmUnion]
  by_cases h0 : b.nentries = 0
  · rw [if_pos h0]
    refine ha'.mono ((hcovered [] fun e he => ?_).trans ?_) subset_rfl
    · rw [hb.ok.get?_of_nentries h0] at he
      exact absurd he.symm (Option.some_ne_none e)
    · refine Set.union_subset subset_rfl ?_
      rintro tid ⟨_, e, he, _⟩
      exact absurd he List.not_mem_nil
  rw [if_neg h0]
  by_cases hone : b.status = .onePage
  · rw [if_pos hone]
    have hget : ∀ e, b.table.get? e.blockno = some e ↔ e = b.entry1 := by
      intro e
      rw [get?_onePage hone]
      constructor
      · intro he
        split_ifs at he
        exact (Option.some.inj he).symm
      · rintro rfl
        exact if_pos rfl
    have hone' := hcovered [b.entry1] fun e he => List.mem_singleton.mpr ((hget e).mp he)
    refine (ha'.tbmUnionPage scan hb.ok.sound hb.covers Set.subset_union_right
      ((hget _).mpr rfl)).mono (hone'.trans ?_) subset_rfl
    refine Set.union_subset_union_right _ ?_
    rintro tid ⟨htid, e, he, hmem⟩
    exact ⟨htid, List.mem_singleton.mp he ▸ hmem⟩
  · rw [if_neg hone]
    have hs := hb.ok.hash_of_nentries h0 hone
    refine (represents_unionPages scan hb.ok.sound hb.covers (scanPages scan b) ?_ ha'
      Set.subset_union_right).mono (hcovered _ ?_) subset_rfl
    · exact fun e he => table_hash hs ▸ (mem_scanPages scan).mp he
    · exact fun e he => (mem_scanPages scan).mpr (table_hash hs ▸ he)

end Hdb.Tbm
