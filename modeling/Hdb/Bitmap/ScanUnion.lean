import Hdb.Bitmap.Union

/-!
# A scan computes the union of its vectors

`VecReads` relates a vector of a scan to the bits that are still to come from it: those of its
batch, of its pages that are not read yet and of its LOV item. A call reads pages where a batch is
empty and then continues the result; it reads at least one word, so that the scan comes to its end.
What it has handed out then is the or of the vectors, if no call skips zeros that are not zeros of
all of them (`scan_union`).
-/

namespace Hdb.Bitmap

/-! ## Reading words -/

/-- The last words of a vector. -/
def lastEntries (lov : BMLOVItem) : List Entry := compwordEntries lov ++ [(lov.bmLastWord, false)]

/-- A vector that can be read: its pages are linked, none is empty, and no fill word is. -/
structure VectorOk (L : PageLayout) (v : BmVector) (bs : List Nat) : Prop where
  seg : Seg v.pages v.lovItem.bmLovHead bs none
  length : bs.length ≤ v.nblocks
  page : ∀ b ∈ bs, PageOk L (v.pages b)
  used : ∀ b ∈ bs, 0 < (v.pages b).bmHrlWordsUsed
  fills : FillsPos (vectorEntries v)
  header : v.lovItem.lovWordsHeader = 0 ∨ v.lovItem.lovWordsHeader = 2
  bound : numBits (vectorEntries v) < 2 ^ 63

theorem VectorOk.entries {L : PageLayout} {v : BmVector} {bs : List Nat} (h : VectorOk L v bs) :
    vectorEntries v = chainEntries v.pages bs ++ lastEntries v.lovItem := by
  rw [vectorEntries, pagesEntries_of_seg h.seg h.length, lastEntries]

theorem FillsPos.append {es es' : List Entry} :
    FillsPos (es ++ es') ↔ FillsPos es ∧ FillsPos es' := by
  simp only [FillsPos, List.mem_append]
  constructor
  · intro h
    exact ⟨fun e he => h e (Or.inl he), fun e he => h e (Or.inr he)⟩
  · intro h e he
    rcases he with he | he
    · exact h.1 e he
    · exact h.2 e he

/-- The words of a LOV item: only the first of them can be a fill word. -/
theorem readLastWords_spec {lov : BMLOVItem}
    (h : lov.lovWordsHeader = 0 ∨ lov.lovWordsHeader = 2) :
    let r := readLastWords lov
    (List.range r.2.2).map (fun i => (r.2.1 i, r.1.getMsbD i)) = lastEntries lov ∧ 0 < r.2.2 ∧
      r.2.2 ≤ 2 ∧ ∀ i, 1 ≤ i → r.1.getMsbD i = false := by
  have hbits : ∀ i, 1 ≤ i → (BitVec.ofNat 64 lov.lovWordsHeader <<< 62).getMsbD i = false := by
    intro i hi
    rcases h with h | h
    · rw [h]
      simp
    · have hbit : BitVec.ofNat 64 2 <<< 62 = wordnoGetHeaderBit 0 := by decide
      rw [h, hbit, getMsbD_wordnoGetHeaderBit]
      exact decide_eq_false (by omega)
  have hfirst : (BitVec.ofNat 64 lov.lovWordsHeader <<< 62).getMsbD 0 =
      bmLastCompwordIsFill lov := by
    rcases h with h | h
    · rw [bmLastCompwordIsFill, h]
      rfl
    · rw [bmLastCompwordIsFill, h]
      rfl
  have hzero : BitVec.ofNat 64 lov.lovWordsHeader <<< 63 = 0#64 := by
    rcases h with h | h
    · rw [h]
      rfl
    · rw [h]
      rfl
  rw [readLastWords, lastEntries, compwordEntries]
  by_cases hset : lov.bmLastCompword = literalAllOne
  · rw [if_neg (not_not_intro hset), if_pos hset, hzero]
    refine ⟨?_, Nat.one_pos, Nat.le_succ 1, ?_⟩
    · simp
    · intro i _
      simp
  · rw [if_pos hset, if_neg hset]
    refine ⟨?_, Nat.two_pos, le_rfl, hbits⟩
    show [(lov.bmLastCompword, _), (lov.bmLastWord, _)] = _
    rw [hfirst, hbits 1 le_rfl]
    rfl

/-- The header bits after one more bit has been set, if it has. -/
theorem isFillWord_or_first {hwords : Nat → BmHrlWord} {h : BmHrlWord} {n : Nat}
    (hh : ∀ i, 1 ≤ i → h.getMsbD i = false) (i : Nat) :
    isFillWord (Function.update hwords (n / 64) (hwords (n / 64) ||| h >>> (n % 64))) i =
      (isFillWord hwords i || (decide (i = n) && h.getMsbD 0)) := by
  have hr : i % 64 < 64 := Nat.mod_lt i (by decide)
  rw [isFillWord_update]
  by_cases hi : i / 64 = n / 64
  · rw [if_pos hi, BitVec.getMsbD_or, BitVec.getMsbD_ushiftRight, decide_eq_true hr, Bool.true_and,
      isFillWord_eq, hi]
    congr 1
    by_cases hlt : i % 64 < n % 64
    · rw [decide_eq_true hlt, decide_eq_false (show ¬ i = n by omega)]
      rfl
    · rw [decide_eq_false hlt]
      by_cases heq : i = n
      · rw [heq, decide_eq_true rfl, Nat.sub_self]
        rfl
      · rw [decide_eq_false heq, hh _ (by omega)]
        rfl
  · have hne : ¬ i = n := by
      intro heq
      exact hi (by rw [heq])
    rw [if_neg hi, decide_eq_false hne, Bool.false_and, Bool.or_false]

/-- The first header bit only, shifted out. -/
theorem isFillWord_or_none {hwords : Nat → BmHrlWord} {h : BmHrlWord} {n : Nat}
    (hh : ∀ i, 1 ≤ i → h.getMsbD i = false) (i : Nat) :
    isFillWord (Function.update hwords n (hwords n ||| h <<< 1)) i = isFillWord hwords i := by
  rw [isFillWord_update]
  split_ifs with hi
  · rw [BitVec.getMsbD_or, BitVec.getMsbD_shiftLeft, hh _ (by omega), Bool.or_false,
      isFillWord_eq, hi]
  · rfl

/-- What is still to come from a vector after its batch, when `bs` are its pages not read yet. -/
def laterEntries (v : BMVectorData) (bs : List Nat) : List Entry :=
  if v.bmReadLastWords then [] else chainEntries v.vector.pages bs ++ lastEntries v.vector.lovItem

/-- The pages of a vector that are not read yet. -/
structure PagesOk (L : PageLayout) (v : BMVectorData) (bs : List Nat) : Prop where
  seg : v.bmReadLastWords = false → Seg v.vector.pages v.bmNextBlockNo bs none
  page : ∀ b ∈ bs, PageOk L (v.vector.pages b)
  used : ∀ b ∈ bs, 0 < (v.vector.pages b).bmHrlWordsUsed
  header : v.vector.lovItem.lovWordsHeader = 0 ∨ v.vector.lovItem.lovWordsHeader = 2

theorem entriesFrom_eq_map {cwords hwords : Nat → BmHrlWord} {i n : Nat} {f : Nat → Entry}
    (h : ∀ j < n, (cwords (i + j), isFillWord hwords (i + j)) = f j) :
    entriesFrom cwords hwords i n = (List.range n).map f := by
  apply List.ext_getElem
  · simp
  · intro j h₁ h₂
    rw [length_entriesFrom] at h₁
    rw [getElem_entriesFrom, h j h₁, List.getElem_map, List.getElem_range]

/-- The words of the next page, or of the LOV item, are in the batch. -/
structure WordsRead (L : PageLayout) (v : BMVectorData) (bs : List Nat) (v' : BMVectorData)
    (bs' : List Nat) : Prop where
  pages : PagesOk L v' bs'
  entries : v'.bmBatchWords.entries ++ laterEntries v' bs' = laterEntries v bs
  nwords_pos : 0 < v'.bmBatchWords.nwords
  vector : v'.vector = v.vector
  frame : SameFrame v.bmBatchWords v'.bmBatchWords
  nwordsread : v'.bmBatchWords.nwordsread = v.bmBatchWords.nwordsread
  nextread : v'.bmBatchWords.nextread = v.bmBatchWords.nextread

section

variable {L : PageLayout} {v : BMVectorData} {bs : List Nat}

theorem laterEntries_of_unread (hread : v.bmReadLastWords = false) (bs : List Nat) :
    laterEntries v bs = chainEntries v.vector.pages bs ++ lastEntries v.vector.lovItem := by
  rw [laterEntries, hread, if_neg Bool.false_ne_true]

/-- After the last page the words of the LOV item are read. -/
theorem readWords_lov (h : PagesOk L v []) (hread : v.bmReadLastWords = false)
    (hstart : v.bmBatchWords.startNo = 0) : WordsRead L v [] (readWords L v) [] := by
  have hnext : v.bmNextBlockNo = none := h.seg hread
  obtain ⟨l₁, l₂, l₃, -⟩ := readLastWords_spec h.header
  rw [readWords]
  dsimp only
  generalize readLastWords v.vector.lovItem = last at l₁ l₂ l₃ ⊢
  rw [hnext]
  dsimp only
  refine ⟨⟨?_, h.page, h.used, h.header⟩, ?_, l₂, rfl, ⟨rfl, rfl⟩, rfl, rfl⟩
  · intro hfalse
    exact absurd hfalse.symm Bool.false_ne_true
  · rw [laterEntries_of_unread hread, laterEntries, if_pos rfl, List.append_nil, chainEntries_nil,
      List.nil_append, ← l₁, BMBatchWords.entries]
    dsimp only
    rw [hstart]
    apply entriesFrom_eq_map
    intro j hj
    have hj0 : j / 64 = 0 := by omega
    have hjm : j % 64 = j := by omega
    rw [Nat.zero_add, memcpy_apply, if_pos hj, isFillWord_update, if_pos hj0, hjm]

variable {blk : Nat}

/-- The copied header words of a page hold the header bits of its words. -/
theorem isFillWord_pageHeader (dst src : Nat → BmHrlWord) {i : Nat} (hi : i < L.wordsPerPage) :
    isFillWord (memcpy dst src L.bmNumOfHeaderWords) i = isFillWord src i := by
  have hlt : i / 64 < L.bmNumOfHeaderWords := by
    have hi' : i < 64 * L.bmNumOfHeaderWords := hi
    omega
  rw [isFillWord_memcpy, if_pos hlt]

/-- The last page is read with the words of the LOV item, if there is room for them. -/
theorem readWords_lastPage (h : PagesOk L v (blk :: bs)) (hread : v.bmReadLastWords = false)
    (hstart : v.bmBatchWords.startNo = 0) (hlast : (v.vector.pages blk).bmBitmapNext = none ∧
      (v.vector.pages blk).bmHrlWordsUsed ≤ L.wordsPerPage - 2) :
    WordsRead L v (blk :: bs) (readWords L v) [] := by
  have hL : 64 ≤ L.wordsPerPage := by
    have := L.pos
    show 64 ≤ 64 * L.bmNumOfHeaderWords
    omega
  have hseg := h.seg hread
  obtain ⟨l₁, l₂, l₃, l₄⟩ := readLastWords_spec h.header
  have hok := h.page blk (List.mem_cons_self ..)
  have hused := h.used blk (List.mem_cons_self ..)
  have hmax := hok.used
  have hnil : bs = [] := by
    have hrest := hseg.2
    rw [hlast.1] at hrest
    cases bs with
    | nil => rfl
    | cons b' bs' => exact absurd hrest.1.symm (Option.some_ne_none b')
  rw [readWords]
  dsimp only
  generalize readLastWords v.vector.lovItem = last at l₁ l₂ l₃ l₄ ⊢
  rw [hseg.1]
  dsimp only
  rw [if_pos hlast]
  refine ⟨⟨?_, ?_, ?_, h.header⟩, ?_, ?_, rfl, ⟨rfl, rfl⟩, rfl, rfl⟩
  · intro hfalse
    exact absurd hfalse.symm Bool.false_ne_true
  · intro b' hb'
    exact absurd hb' List.not_mem_nil
  · intro b' hb'
    exact absurd hb' List.not_mem_nil
  · rw [laterEntries_of_unread hread, laterEntries, if_pos rfl, List.append_nil, hnil,
      chainEntries_cons, chainEntries_nil, List.append_nil, BMBatchWords.entries]
    dsimp only
    generalize hn : (v.vector.pages blk).bmHrlWordsUsed = n at hused hmax hlast ⊢
    have hbits : ∀ i < L.wordsPerPage, isFillWord (if n % 64 = 63 then
          Function.update (Function.update (memcpy v.bmBatchWords.hwords
            (v.vector.pages blk).hwords L.bmNumOfHeaderWords) (n / 64)
            (memcpy v.bmBatchWords.hwords (v.vector.pages blk).hwords L.bmNumOfHeaderWords
              (n / 64) ||| last.1 >>> (n % 64))) ((n + 1) / 64)
            (Function.update (memcpy v.bmBatchWords.hwords (v.vector.pages blk).hwords
              L.bmNumOfHeaderWords) (n / 64) (memcpy v.bmBatchWords.hwords
              (v.vector.pages blk).hwords L.bmNumOfHeaderWords (n / 64) |||
                last.1 >>> (n % 64)) ((n + 1) / 64) ||| last.1 <<< 1)
        else Function.update (memcpy v.bmBatchWords.hwords
            (v.vector.pages blk).hwords L.bmNumOfHeaderWords) (n / 64)
            (memcpy v.bmBatchWords.hwords (v.vector.pages blk).hwords L.bmNumOfHeaderWords
              (n / 64) ||| last.1 >>> (n % 64))) i =
        (isFillWord (v.vector.pages blk).hwords i || (decide (i = n) && last.1.getMsbD 0)) := by
      intro i hi
      rw [← isFillWord_pageHeader v.bmBatchWords.hwords (v.vector.pages blk).hwords hi]
      split_ifs
      · rw [isFillWord_or_none l₄, isFillWord_or_first l₄]
      · rw [isFillWord_or_first l₄]
    rw [hstart, entriesFrom_add, Nat.zero_add, ← l₁]
    congr 1
    · rw [BMBitmapPage.entries, hn]
      apply entriesFrom_congr
      · intro j hj
        rw [Nat.zero_add, if_neg (by omega), memcpy_apply, if_pos hj]
      · intro j hj
        rw [Nat.zero_add, hbits j (by omega), decide_eq_false (by omega), Bool.false_and,
          Bool.or_false]
    · apply entriesFrom_eq_map
      intro j hj
      rw [if_pos (by omega), Nat.add_sub_cancel_left, hbits _ (by omega),
        hok.clean _ (by omega) (by omega), Bool.false_or]
      congr 1
      cases j with
      | zero => rw [Nat.add_zero, decide_eq_true rfl, Bool.true_and]
      | succ j => rw [decide_eq_false (by omega), Bool.false_and, l₄ _ (by omega)]
  · exact Nat.add_pos_left hused _

/-- The words of a page are read. -/
theorem readWords_page (h : PagesOk L v (blk :: bs)) (hread : v.bmReadLastWords = false)
    (hstart : v.bmBatchWords.startNo = 0) (hlast : ¬ ((v.vector.pages blk).bmBitmapNext = none ∧
      (v.vector.pages blk).bmHrlWordsUsed ≤ L.wordsPerPage - 2)) :
    WordsRead L v (blk :: bs) (readWords L v) bs := by
  have hseg := h.seg hread
  have hused := h.used blk (List.mem_cons_self ..)
  have hmax := (h.page blk (List.mem_cons_self ..)).used
  rw [readWords]
  dsimp only
  rw [hseg.1]
  dsimp only
  rw [if_neg hlast]
  refine ⟨⟨fun _ => hseg.2, fun b' hb' => h.page b' (List.mem_cons_of_mem _ hb'),
    fun b' hb' => h.used b' (List.mem_cons_of_mem _ hb'), h.header⟩, ?_, hused, rfl, ⟨rfl, rfl⟩,
    rfl, rfl⟩
  rw [laterEntries_of_unread hread, laterEntries, if_neg Bool.false_ne_true, chainEntries_cons,
    List.append_assoc, BMBatchWords.entries, BMBitmapPage.entries]
  dsimp only
  congr 1
  rw [hstart]
  apply entriesFrom_congr
  · intro j hj
    rw [Nat.zero_add, memcpy_apply, if_pos hj]
  · intro j hj
    rw [Nat.zero_add]
    exact isFillWord_pageHeader _ _ (by omega)

end

/-- **Reading words** moves them from the pages to the batch. -/
theorem readWords_spec {L : PageLayout} {v : BMVectorData} {bs : List Nat} (h : PagesOk L v bs)
    (hread : v.bmReadLastWords = false) (hstart : v.bmBatchWords.startNo = 0) :
    ∃ bs', WordsRead L v bs (readWords L v) bs' := by
  cases bs with
  | nil => exact ⟨[], readWords_lov h hread hstart⟩
  | cons blk bs =>
    by_cases hlast : (v.vector.pages blk).bmBitmapNext = none ∧
        (v.vector.pages blk).bmHrlWordsUsed ≤ L.wordsPerPage - 2
    · exact ⟨[], readWords_lastPage h hread hstart hlast⟩
    · exact ⟨bs, readWords_page h hread hstart hlast⟩

/-! ## A vector of the scan -/

/-- All words of the vector are read. -/
def ended (v : BMVectorData) : Prop := v.bmBatchWords.nwords = 0 ∧ v.bmReadLastWords = true

/-- The vector is before the word `nextReadNo`, and at the bits that come after those it has
read. -/
structure VecReads (L : PageLayout) (nextReadNo : Nat) (all : List Entry) (v : BMVectorData) :
    Prop where
  reads : ∃ bs, PagesOk L v bs ∧ Reads ⟨all, laterEntries v bs⟩ v.bmBatchWords ∧
    FillsPos (laterEntries v bs)
  bound : numBits all < 2 ^ 63
  le : v.bmBatchWords.nwordsread ≤ nextReadNo - 1
  firstTid : v.bmBatchWords.firstTid = 0
  next : ended v ∨ v.bmBatchWords.nextread = nextReadNo

section

variable {L : PageLayout} {nextReadNo : Nat} {all : List Entry} {v : BMVectorData}

/-- A vector has no bits past its end. -/
theorem VecReads.bit_of_ended (h : VecReads L nextReadNo all v) (hend : ended v) {p : Nat}
    (hp : 64 * (nextReadNo - 1) ≤ p) : bitAt all p = false := by
  obtain ⟨bs, -, hr, -⟩ := h.reads
  have htot : numBits all = 64 * v.bmBatchWords.nwordsread +
      numBits (v.bmBatchWords.entries ++ laterEntries v bs) := hr.drop.1
  have hnil : numBits (v.bmBatchWords.entries ++ laterEntries v bs) = 0 := by
    rw [entries_nil hend.1, laterEntries, hend.2, if_pos rfl]
    rfl
  have hle := h.le
  exact Segments.bitAt_eq_false (show numBits all ≤ p by omega)

/-- The words read are words of the vector. -/
theorem VecReads.read_le (h : VecReads L nextReadNo all v) :
    64 * v.bmBatchWords.nwordsread ≤ numBits all := by
  obtain ⟨bs, -, hr, -⟩ := h.reads
  have htot : numBits all = 64 * v.bmBatchWords.nwordsread +
      numBits (v.bmBatchWords.entries ++ laterEntries v bs) := hr.drop.1
  omega

/-- **Refilling a batch.** -/
theorem VecReads.refill (h : VecReads L nextReadNo all v) :
    VecReads L nextReadNo all (refill L v) ∧
      (0 < (Bitmap.refill L v).bmBatchWords.nwords ∨ ended (Bitmap.refill L v)) ∧
      (Bitmap.refill L v).bmBatchWords.nwordsread = v.bmBatchWords.nwordsread := by
  rw [Bitmap.refill]
  by_cases hempty : v.bmBatchWords.nwords = 0 ∧ v.bmReadLastWords = false
  · rw [if_pos hempty]
    obtain ⟨bs, hp, hr, hf⟩ := h.reads
    obtain ⟨bs', r₁, r₂, r₃, r₄, r₅, r₆, r₇⟩ := readWords_spec
      (v := { v with bmBatchWords := bitmapResetBatchwords v.bmBatchWords })
      ⟨hp.seg, hp.page, hp.used, hp.header⟩ hempty.2 rfl
    generalize readWords L { v with bmBatchWords := bitmapResetBatchwords v.bmBatchWords } = v'
      at r₁ r₂ r₃ r₄ r₅ r₆ r₇ ⊢
    have hlater : laterEntries { v with bmBatchWords := bitmapResetBatchwords v.bmBatchWords } bs =
        laterEntries v bs := rfl
    rw [hlater] at r₂
    have hread : v'.bmBatchWords.nwordsread = v.bmBatchWords.nwordsread := r₆
    rw [← r₂, FillsPos.append] at hf
    have hdrop := hr.drop
    rw [entries_nil hempty.1, List.nil_append] at hdrop
    dsimp only at hdrop
    rw [← r₂, ← hread] at hdrop
    refine ⟨⟨⟨bs', r₁, ⟨hdrop, hf.1⟩, hf.2⟩, h.bound, ?_, ?_, ?_⟩, Or.inl r₃, hread⟩
    · rw [hread]
      exact h.le
    · exact r₅.firstTid.trans h.firstTid
    · right
      rw [r₇]
      rcases h.next with hend | hnext
      · rw [hend.2] at hempty
        exact absurd hempty.2.symm Bool.false_ne_true
      · exact hnext
  · rw [if_neg hempty]
    refine ⟨h, ?_, rfl⟩
    by_cases h0 : v.bmBatchWords.nwords = 0
    · right
      refine ⟨h0, ?_⟩
      rw [← Bool.not_eq_false]
      intro hfalse
      exact hempty ⟨h0, hfalse⟩
    · exact Or.inl (Nat.pos_of_ne_zero h0)

/-- A vector whose batch has been read further. -/
theorem VecReads.setBatch (h : VecReads L nextReadNo all v) {bs : List Nat} (hp : PagesOk L v bs)
    (hf : FillsPos (laterEntries v bs)) {b : BMBatchWords} {n : Nat}
    (hr : Reads ⟨all, laterEntries v bs⟩ b) (hle : b.nwordsread ≤ n - 1) (hnext : b.nextread = n)
    (hfirst : b.firstTid = 0) : VecReads L n all { v with bmBatchWords := b } :=
  ⟨⟨bs, ⟨hp.seg, hp.page, hp.used, hp.header⟩, hr, hf⟩, h.bound, hle, hfirst, Or.inr hnext⟩

/-- A vector that has ended stays so. -/
theorem VecReads.mono (h : VecReads L nextReadNo all v) (hend : ended v) {n : Nat}
    (hn : nextReadNo ≤ n) : VecReads L n all v := by
  have hle := h.le
  exact ⟨h.reads, h.bound, by omega, h.firstTid, Or.inl hend⟩

end

/-! ## All vectors -/

/-- The or of some vectors at a position. -/
def unionBit (alls : List (List Entry)) (p : Nat) : Bool := alls.any fun es => bitAt es p

/-- The words read so far, in all vectors. -/
def posSum (vs : List BMVectorData) : Nat := readSum (vs.map BMVectorData.bmBatchWords)

theorem posSum_cons (v : BMVectorData) (vs : List BMVectorData) :
    posSum (v :: vs) = v.bmBatchWords.nwordsread + posSum vs := rfl

/-- The batches of the vectors that have words stand for all that is still to come. They can be
read further and put back. -/
theorem liveBatches_spec {L : PageLayout} {nextReadNo : Nat} {alls : List (List Entry)}
    {vs : List BMVectorData} (h : List.Forall₂ (VecReads L nextReadNo) alls vs)
    (hlive : ∀ v ∈ vs, 0 < v.bmBatchWords.nwords ∨ ended v) :
    ∃ cs, List.Forall₂ Reads cs (liveBatches vs) ∧
      (∀ p, 64 * (nextReadNo - 1) ≤ p → unionBit alls p = anyBit cs p) ∧
      (∀ c ∈ cs, numBits c.all < 2 ^ 63) ∧
      (∀ b ∈ liveBatches vs, 0 < b.nwords ∧ b.nwordsread ≤ nextReadNo - 1 ∧
        b.nextread = nextReadNo ∧ b.firstTid = 0) ∧
      ∀ n bs', nextReadNo ≤ n → List.Forall₂ Reads cs bs' →
        (∀ b ∈ bs', b.nwordsread ≤ n - 1 ∧ b.nextread = n ∧ b.firstTid = 0) →
        List.Forall₂ (VecReads L n) alls (putBatches vs bs') ∧
          posSum (putBatches vs bs') + readSum (liveBatches vs) = posSum vs + readSum bs' := by
  induction h with
  | nil =>
    refine ⟨[], .nil, fun _ _ => rfl, ?_, ?_, ?_⟩
    · intro c hc
      exact absurd hc List.not_mem_nil
    · intro b hb
      exact absurd hb List.not_mem_nil
    · intro n bs' _ hbs' _
      cases hbs'
      exact ⟨.nil, rfl⟩
  | @cons all v alls vs hv _ ih =>
    obtain ⟨cs, i₁, i₂, i₃, i₄, i₅⟩ := ih fun v' hv' => hlive v' (List.mem_cons_of_mem _ hv')
    by_cases hwords : 0 < v.bmBatchWords.nwords
    · obtain ⟨bs, hp, hr, hf⟩ := hv.reads
      have hbs : liveBatches (v :: vs) = v.bmBatchWords :: liveBatches vs := by
        simp [liveBatches, hwords]
      rw [hbs]
      refine ⟨⟨all, laterEntries v bs⟩ :: cs, .cons hr i₁, ?_, ?_, ?_, ?_⟩
      · intro p hp'
        rw [anyBit_cons, ← i₂ p hp']
        rfl
      · intro c hc
        rcases List.mem_cons.mp hc with rfl | hc
        · exact hv.bound
        · exact i₃ c hc
      · intro b hb
        rcases List.mem_cons.mp hb with rfl | hb
        · refine ⟨hwords, hv.le, ?_, hv.firstTid⟩
          rcases hv.next with hend | hnext
          · have := hend.1
            omega
          · exact hnext
        · exact i₄ b hb
      · intro n bs' hn hbs' hall
        cases hbs' with
        | @cons _ b _ bs' hb hbs' =>
          obtain ⟨b₁, b₂, b₃⟩ := hall b (List.mem_cons_self ..)
          obtain ⟨j₁, j₂⟩ := i₅ n bs' hn hbs' fun b' hb' => hall b' (List.mem_cons_of_mem _ hb')
          rw [putBatches, if_pos hwords, List.headD_cons, List.tail_cons]
          refine ⟨.cons (hv.setBatch hp hf hb b₁ b₂ b₃) j₁, ?_⟩
          rw [posSum_cons, posSum_cons, readSum_cons, readSum_cons]
          dsimp only
          omega
    · have hend : ended v := (hlive v (List.mem_cons_self ..)).resolve_left hwords
      have hbs : liveBatches (v :: vs) = liveBatches vs := by
        simp [liveBatches, hwords]
      rw [hbs]
      refine ⟨cs, i₁, ?_, i₃, i₄, ?_⟩
      · intro p hp
        rw [← i₂ p hp]
        show (bitAt all p || unionBit alls p) = unionBit alls p
        rw [hv.bit_of_ended hend hp, Bool.false_or]
      · intro n bs' hn hbs' hall
        obtain ⟨j₁, j₂⟩ := i₅ n bs' hn hbs' hall
        rw [putBatches, if_neg hwords]
        refine ⟨.cons (hv.mono hend hn) j₁, ?_⟩
        rw [posSum_cons, posSum_cons]
        omega

theorem forall₂_refill {L : PageLayout} {nextReadNo : Nat} {alls : List (List Entry)}
    {vs : List BMVectorData} (h : List.Forall₂ (VecReads L nextReadNo) alls vs) :
    List.Forall₂ (VecReads L nextReadNo) alls (vs.map (refill L)) ∧
      (∀ v ∈ vs.map (refill L), 0 < v.bmBatchWords.nwords ∨ ended v) ∧
      posSum (vs.map (refill L)) = posSum vs := by
  induction h with
  | nil =>
    refine ⟨.nil, ?_, rfl⟩
    intro v hv
    exact absurd hv List.not_mem_nil
  | @cons all v alls vs hv _ ih =>
    obtain ⟨r₁, r₂, r₃⟩ := hv.refill
    obtain ⟨i₁, i₂, i₃⟩ := ih
    rw [List.map_cons]
    refine ⟨.cons r₁ i₁, ?_, ?_⟩
    · intro v' hv'
      rcases List.mem_cons.mp hv' with rfl | hv'
      · exact r₂
      · exact i₂ v' hv'
    · rw [posSum_cons, posSum_cons, r₃, i₃]

/-! ## Runs -/

/-- What holds of a scan between two calls. -/
structure ScanInv (L : PageLayout) (alls : List (List Entry)) (s : Scan) (nextReadNo : Nat) :
    Prop where
  pos : 0 < nextReadNo
  vectors : List.Forall₂ (VecReads L nextReadNo) alls s.pos.posvecs
  maxWords : s.pos.bmBatchWords.maxNumOfWords = L.wordsPerPage
  covers : Covers (unionBit alls) s.out (nextReadNo - 1)
  done : s.pos.done = true → ∀ v ∈ s.pos.posvecs, ended v

/-- The calls of a scan whose skipped zeros are zeros of all vectors. -/
def stepOk (L : PageLayout) (s : Scan) : Bool :=
  fastForwardOk (liveBatches (s.pos.posvecs.map (refill L)))

theorem resultOk_reset {max : Nat} {result : BMBatchWords} (h : result.maxNumOfWords = max) :
    ResultOk max (bitmapResetBatchwords result) ∧ (bitmapResetBatchwords result).entries = [] := by
  refine ⟨⟨rfl, h, ?_⟩, rfl⟩
  intro i _ hi
  rw [isFillWord_eq]
  show BitVec.getMsbD (if i / 64 < bmCalcHWords result.maxNumOfWords then 0 else _) _ = false
  have hlt : i / 64 < bmCalcHWords result.maxNumOfWords := by
    rw [h, bmCalcHWords]
    split_ifs <;> omega
  rw [if_pos hlt]
  simp

/-- **One call** keeps the invariant, and unless the scan is over it reads at least one word. -/
theorem scanStep_spec {L : PageLayout} {alls : List (List Entry)} {s : Scan} {nextReadNo : Nat}
    (h : ScanInv L alls s nextReadNo) (hdone : s.pos.done = false) (hok : stepOk L s = true) :
    ∃ n, ScanInv L alls (scanStep L s) n ∧
      ((scanStep L s).pos.done = true ∨
        posSum s.pos.posvecs < posSum (scanStep L s).pos.posvecs) := by
  have hL : 64 ≤ L.wordsPerPage := by
    have := L.pos
    show 64 ≤ 64 * L.bmNumOfHeaderWords
    omega
  obtain ⟨r₁, r₂, r₃⟩ := forall₂_refill h.vectors
  obtain ⟨cs, l₁, l₂, l₃, l₄, l₅⟩ := liveBatches_spec r₁ r₂
  rw [stepOk] at hok
  rw [scanStep, hdone, if_neg Bool.false_ne_true, nextBatchWords]
  dsimp only
  cases hbs : liveBatches (s.pos.posvecs.map (refill L)) with
  | nil =>
    refine ⟨nextReadNo, ⟨h.pos, r₁, h.maxWords, h.covers, ?_⟩, Or.inl rfl⟩
    intro _ v hv
    refine (r₂ v hv).resolve_left fun hwords => ?_
    have hmem : v.bmBatchWords ∈ liveBatches (s.pos.posvecs.map (refill L)) :=
      List.mem_map.mpr ⟨v, List.mem_filter.mpr ⟨hv, decide_eq_true hwords⟩, rfl⟩
    rw [hbs] at hmem
    exact absurd hmem List.not_mem_nil
  | cons b bs =>
    rw [← hbs]
    obtain ⟨e₁, e₂⟩ := resultOk_reset h.maxWords
    have hinv : LoopInv (unionBit alls) cs s.out L.wordsPerPage
        (liveBatches (s.pos.posvecs.map (refill L))) (bitmapResetBatchwords s.pos.bmBatchWords)
        nextReadNo := by
      refine ⟨h.pos, l₁, fun b hb => (l₄ b hb).2.1, e₁, l₂, ?_⟩
      rw [e₂, List.append_nil]
      exact h.covers
    have hbatches : BatchesOk cs (liveBatches (s.pos.posvecs.map (refill L))) nextReadNo := by
      refine ⟨?_, fun b hb => (l₄ b hb).1, fun b hb => (l₄ b hb).2.2.1,
        fun b hb => (l₄ b hb).2.2.2, l₃⟩
      rw [hbs]
      exact List.cons_ne_nil _ _
    obtain ⟨n, u₁, u₂, u₃, u₄, u₅, u₆, u₇, u₈⟩ := bitmapUnion_spec hinv hbatches rfl (by omega) hok
    have hne : (liveBatches (s.pos.posvecs.map (refill L))).isEmpty = false := by
      rw [hbs]
      rfl
    rw [hne, if_neg Bool.false_ne_true]
    generalize bitmapUnion (liveBatches (s.pos.posvecs.map (refill L)))
      (bitmapResetBatchwords s.pos.bmBatchWords) = u at u₁ u₂ u₃ u₄ u₅ u₆ u₇ u₈ ⊢
    dsimp only
    rw [hdone, if_neg Bool.false_ne_true]
    obtain ⟨p₁, p₂⟩ := l₅ n u.1 u₁ u₂ fun b hb => ⟨u₃ b hb, u₄ b hb, u₅ b hb⟩
    refine ⟨n, ⟨by have := h.pos; omega, p₁, u₆.maxWords, u₇, ?_⟩, Or.inr ?_⟩
    · intro hfalse
      exact absurd hfalse Bool.false_ne_true
    · dsimp only
      omega

/-- The words that can be read, in all vectors. -/
theorem posSum_le {L : PageLayout} {nextReadNo : Nat} {alls : List (List Entry)}
    {vs : List BMVectorData} (h : List.Forall₂ (VecReads L nextReadNo) alls vs) :
    posSum vs ≤ (alls.map numBits).sum := by
  induction h with
  | nil => exact le_rfl
  | @cons all v alls vs hv _ ih =>
    have hle := hv.read_le
    rw [posSum_cons, List.map_cons, List.sum_cons]
    omega

theorem unionBit_of_ended {L : PageLayout} {nextReadNo p : Nat} {alls : List (List Entry)}
    {vs : List BMVectorData} (h : List.Forall₂ (VecReads L nextReadNo) alls vs)
    (hend : ∀ v ∈ vs, ended v) (hp : 64 * (nextReadNo - 1) ≤ p) : unionBit alls p = false := by
  induction h with
  | nil => rfl
  | @cons all v alls vs hv _ ih =>
    show (bitAt all p || unionBit alls p) = false
    rw [hv.bit_of_ended (hend v (List.mem_cons_self ..)) hp, Bool.false_or]
    exact ih fun v' hv' => hend v' (List.mem_cons_of_mem _ hv')

/-- What a scan that is over has handed out. -/
theorem ScanInv.out_eq {L : PageLayout} {alls : List (List Entry)} {s : Scan} {nextReadNo : Nat}
    (h : ScanInv L alls s nextReadNo) (hdone : s.pos.done = true) (p : Nat) :
    bitAt s.out p = unionBit alls p := by
  by_cases hp : p < 64 * (nextReadNo - 1)
  · exact h.covers.2 p hp
  · have htot : Segments.total entryLen s.out = 64 * (nextReadNo - 1) := h.covers.1
    rw [unionBit_of_ended h.vectors (h.done hdone) (Nat.le_of_not_lt hp)]
    exact Segments.bitAt_eq_false (by omega)

/-- A scan comes to its end. -/
theorem scan_ends {L : PageLayout} {alls : List (List Entry)} (m : Nat) {s : Scan}
    {nextReadNo : Nat} (h : ScanInv L alls s nextReadNo)
    (hm : (alls.map numBits).sum - posSum s.pos.posvecs < m)
    (hok : ∀ n, ((scanStep L)^[n] s).pos.done = false → stepOk L ((scanStep L)^[n] s) = true) :
    ∃ n nextReadNo', ((scanStep L)^[n] s).pos.done = true ∧
      ScanInv L alls ((scanStep L)^[n] s) nextReadNo' := by
  induction m generalizing s nextReadNo with
  | zero => exact absurd hm (Nat.not_lt_zero _)
  | succ m ih =>
    cases hdone : s.pos.done with
    | true => exact ⟨0, nextReadNo, hdone, h⟩
    | false =>
      obtain ⟨n', h', hstep⟩ := scanStep_spec h hdone (hok 0 hdone)
      rcases hstep with hend | hlt
      · exact ⟨1, n', hend, h'⟩
      · have hle := posSum_le h'.vectors
        obtain ⟨n, n'', e₁, e₂⟩ := ih h' (by omega) fun n => hok (n + 1)
        exact ⟨n + 1, n'', e₁, e₂⟩

theorem scanInv_init {L : PageLayout} {vs : List BmVector} (h : ∀ v ∈ vs, ∃ bs, VectorOk L v bs) :
    ScanInv L (vs.map vectorEntries) ⟨initScan L vs, []⟩ 1 := by
  refine ⟨Nat.one_pos, ?_, rfl, ⟨rfl, fun p hp => absurd hp (Nat.not_lt_zero p)⟩, ?_⟩
  · show List.Forall₂ _ (vs.map vectorEntries) (vs.map (initScanpos L))
    rw [List.forall₂_map_left_iff, List.forall₂_map_right_iff, List.forall₂_same]
    intro v hv
    obtain ⟨bs, hok⟩ := h v hv
    have hall := hok.entries
    have hfills := hok.fills
    refine ⟨⟨bs, ⟨fun _ => hok.seg, hok.page, hok.used, hok.header⟩, ⟨?_, ?_⟩, ?_⟩,
      hok.bound, le_rfl, rfl, Or.inr rfl⟩
    · show Drop (vectorEntries v) ([] ++ (chainEntries v.pages bs ++ lastEntries v.lovItem)) 0
      rw [hall, List.nil_append]
      exact Segments.Drop.refl _
    · intro e he
      exact absurd he List.not_mem_nil
    · rw [hall] at hfills
      exact hfills
  · intro hdone
    exact absurd hdone Bool.false_ne_true

/-- **A scan computes the union of its vectors**, however they are split over pages, if none of its
calls skips zeros that are not zeros of all vectors. -/
theorem scan_union (L : PageLayout) {vs : List BmVector}
    (h : ∀ v ∈ vs, ∃ bs, VectorOk L v bs)
    (hok : ∀ n, ((scanStep L)^[n] ⟨initScan L vs, []⟩).pos.done = false →
      stepOk L ((scanStep L)^[n] ⟨initScan L vs, []⟩) = true) :
    ∃ n, ((scanStep L)^[n] ⟨initScan L vs, []⟩).pos.done = true ∧
      ∀ p, bitAt ((scanStep L)^[n] ⟨initScan L vs, []⟩).out p =
        vs.any fun v => bitAt (vectorEntries v) p := by
  obtain ⟨n, n', h₁, h₂⟩ := scan_ends _ (scanInv_init h) (Nat.lt_succ_self _) hok
  refine ⟨n, h₁, ?_⟩
  intro p
  rw [h₂.out_eq h₁, unionBit, List.any_map]
  rfl

/-! ## Small scans -/

/-- A page with the given words, at most 64. -/
def pageOf (es : List Entry) (next : Option Nat) : BMBitmapPage :=
  { bitmapInitBitmappage with
    cwords := fun i => (es.getD i (0, false)).1
    hwords := fun i => if i = 0 then es.zipIdx.foldl
      (fun h e => if e.1.2 then h ||| wordnoGetHeaderBit e.2 else h) 0 else 0
    bmHrlWordsUsed := es.length
    bmBitmapNext := next }

/-- A vector with the given words in two pages, followed by two words of zeros. -/
def vectorOf (es es' : List Entry) : BmVector :=
  ⟨⟨some 0, some 1, 0, 0, 0, 0, 0⟩,
    fun b => if b = 0 then pageOf es (some 1) else pageOf es' none, 2⟩

/-- Pages with one header word. -/
def smallPages : PageLayout := ⟨1, by decide⟩

instance (es : List Entry) : Decidable (FillsPos es) :=
  List.decidableBAll (fun e : Entry => e.2 = true → 0 < fillLength e.1) es

/-- The words fit into a page, and the header bits past them are not set. -/
def fitsPage (es : List Entry) : Bool :=
  0 < es.length && es.length ≤ 64 &&
    (List.range 64).all fun i => i < es.length || !isFillWord (pageOf es none).hwords i

theorem vectorOk_vectorOf {es es' : List Entry} (h : fitsPage es = true) (h' : fitsPage es' = true)
    (hfills : FillsPos (vectorEntries (vectorOf es es')))
    (hbound : numBits (vectorEntries (vectorOf es es')) < 2 ^ 63) :
    VectorOk smallPages (vectorOf es es') [0, 1] := by
  have hpage : ∀ (es : List Entry) (next : Option Nat), fitsPage es = true →
      PageOk smallPages (pageOf es next) ∧ 0 < (pageOf es next).bmHrlWordsUsed := by
    intro es next h
    rw [fitsPage, Bool.and_eq_true, Bool.and_eq_true, decide_eq_true_eq, decide_eq_true_eq,
      List.all_eq_true] at h
    refine ⟨⟨h.1.2, ?_⟩, h.1.1⟩
    intro i hi hi'
    have hbit := h.2 i (List.mem_range.mpr hi')
    have hge : ¬ i < es.length := Nat.not_lt.mpr hi
    rw [decide_eq_false hge, Bool.false_or, Bool.not_eq_true'] at hbit
    exact hbit
  refine ⟨⟨rfl, rfl, rfl⟩, le_rfl, ?_, ?_, hfills, Or.inl rfl, hbound⟩
  · intro b hb
    rcases List.mem_cons.mp hb with rfl | hb
    · exact (hpage es _ h).1
    · rw [List.mem_singleton.mp hb]
      exact (hpage es' _ h').1
  · intro b hb
    rcases List.mem_cons.mp hb with rfl | hb
    · exact (hpage es _ h).2
    · rw [List.mem_singleton.mp hb]
      exact (hpage es' _ h').2

theorem scanStep_of_done {L : PageLayout} {s : Scan} (h : s.pos.done = true) :
    scanStep L s = s := by
  rw [scanStep, if_pos h]

/-- The calls of a scan that is over after `k` calls. -/
theorem stepOk_of_bound {L : PageLayout} {s : Scan} {k : Nat}
    (hdone : ((scanStep L)^[k] s).pos.done = true)
    (h : ∀ n < k, stepOk L ((scanStep L)^[n] s) = true) (n : Nat)
    (hn : ((scanStep L)^[n] s).pos.done = false) : stepOk L ((scanStep L)^[n] s) = true := by
  by_cases hlt : n < k
  · exact h n hlt
  · have hfix := Function.iterate_fixed (scanStep_of_done (L := L) hdone) (n - k)
    rw [← Function.iterate_add_apply, Nat.sub_add_cancel (Nat.le_of_not_lt hlt)] at hfix
    rw [hfix, hdone] at hn
    exact absurd hn.symm Bool.false_ne_true

/-- Three vectors of two pages, with runs of ones over the ends of their pages. -/
def pagedVectors : List BmVector :=
  [vectorOf [(bmMakeFillWord false 2, true), (5, false)]
    [(bmMakeFillWord true 3, true), (1, false)],
    vectorOf [(bmMakeFillWord false 3, true), (1, false)]
    [(6, false), (bmMakeFillWord true 2, true)],
    vectorOf [(bmMakeFillWord true 2, true)] [(7, false)]]

theorem scan_union_pagedVectors :
    ∃ n, ((scanStep smallPages)^[n] ⟨initScan smallPages pagedVectors, []⟩).pos.done = true ∧
      ∀ p, bitAt ((scanStep smallPages)^[n] ⟨initScan smallPages pagedVectors, []⟩).out p =
        pagedVectors.any fun v => bitAt (vectorEntries v) p := by
  refine scan_union smallPages ?_ (stepOk_of_bound (k := 6) (by decide +kernel) (by decide +kernel))
  intro v hv
  simp only [pagedVectors, List.mem_cons, List.not_mem_nil, or_false] at hv
  rcases hv with rfl | rfl | rfl
  · exact ⟨_, vectorOk_vectorOf (by decide +kernel) (by decide +kernel) (by decide +kernel)
      (by decide +kernel)⟩
  · exact ⟨_, vectorOk_vectorOf (by decide +kernel) (by decide +kernel) (by decide +kernel)
      (by decide +kernel)⟩
  · exact ⟨_, vectorOk_vectorOf (by decide +kernel) (by decide +kernel) (by decide +kernel)
      (by decide +kernel)⟩

/-- The first vector has a run of three words of ones, which is the whole of its first page, and a
run of zeros on the second. The second one has two words of zeros, then the words 1 and 2. -/
def laggingVectors : List BmVector :=
  [vectorOf [(bmMakeFillWord true 3, true)] [(bmMakeFillWord false 5, true)],
    vectorOf [(bmMakeFillWord false 2, true), (1, false), (2, false)]
    [(bmMakeFillWord false 1, true)]]

/-- **Skipped zeros lose bits.** When the first vector is at its second page, the second one is
still at its start. Two words of zeros are skipped, and the word 2 of the second vector with
them. -/
theorem scan_loses_bit :
    (∀ v ∈ laggingVectors, ∃ bs, VectorOk smallPages v bs) ∧
    ((scanStep smallPages)^[5] ⟨initScan smallPages laggingVectors, []⟩).pos.done = true ∧
    bitAt ((scanStep smallPages)^[5] ⟨initScan smallPages laggingVectors, []⟩).out 193 = false ∧
    (laggingVectors.any fun v => bitAt (vectorEntries v) 193) = true := by
  refine ⟨?_, by decide +kernel, by decide +kernel, by decide +kernel⟩
  intro v hv
  simp only [laggingVectors, List.mem_cons, List.not_mem_nil, or_false] at hv
  rcases hv with rfl | rfl
  · exact ⟨_, vectorOk_vectorOf (by decide +kernel) (by decide +kernel) (by decide +kernel)
      (by decide +kernel)⟩
  · exact ⟨_, vectorOk_vectorOf (by decide +kernel) (by decide +kernel) (by decide +kernel)
      (by decide +kernel)⟩

end Hdb.Bitmap
