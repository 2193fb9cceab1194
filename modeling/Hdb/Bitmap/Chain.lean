import Hdb.Bitmap.Buffer

/-!
# The chain of bitmap pages

The pages of a vector are linked by block numbers from the head to the tail, and each records the
tid of its last bit. `ChainInv` states this for a list of blocks. Every write replaces a few
adjacent pages by others, one of them possibly new, and leaves the rest alone:
`ChainInv.replace` says when this keeps the chain. Writing a buffer to the end and splitting a
word in the middle are two cases of it.
-/

namespace Hdb.Bitmap

/-! ## Links -/

/-- The blocks `bs` are linked, the first is `h`, and the last points to `h'`. -/
def Seg (pages : Nat → BMBitmapPage) : Option Nat → List Nat → Option Nat → Prop
  | h, [], h' => h = h'
  | h, b :: bs, h' => h = some b ∧ Seg pages (pages b).bmBitmapNext bs h'

theorem seg_append (pages : Nat → BMBitmapPage) (bs bs' : List Nat) (h h' : Option Nat) :
    Seg pages h (bs ++ bs') h' ↔ ∃ m, Seg pages h bs m ∧ Seg pages m bs' h' := by
  induction bs generalizing h with
  | nil => simp [Seg]
  | cons b bs ih =>
    simp only [List.cons_append, Seg, ih]
    constructor
    · intro hseg
      obtain ⟨hb, m, h₁, h₂⟩ := hseg
      exact ⟨m, ⟨hb, h₁⟩, h₂⟩
    · intro hseg
      obtain ⟨m, ⟨hb, h₁⟩, h₂⟩ := hseg
      exact ⟨hb, m, h₁, h₂⟩

theorem Seg.congr {pages pages' : Nat → BMBitmapPage} {bs : List Nat} {h h' : Option Nat}
    (hseg : Seg pages h bs h')
    (heq : ∀ b ∈ bs, (pages' b).bmBitmapNext = (pages b).bmBitmapNext) : Seg pages' h bs h' := by
  induction bs generalizing h with
  | nil => exact hseg
  | cons b bs ih =>
    refine ⟨hseg.1, ?_⟩
    rw [heq b (List.mem_cons_self ..)]
    exact ih hseg.2 fun b' hb' => heq b' (List.mem_cons_of_mem _ hb')

/-- The entries of the pages, in order. -/
def chainEntries (pages : Nat → BMBitmapPage) (bs : List Nat) : List Entry :=
  bs.flatMap fun b => (pages b).entries

@[simp] theorem chainEntries_nil (pages : Nat → BMBitmapPage) : chainEntries pages [] = [] := rfl

@[simp] theorem chainEntries_cons (pages : Nat → BMBitmapPage) (b : Nat) (bs : List Nat) :
    chainEntries pages (b :: bs) = (pages b).entries ++ chainEntries pages bs := by
  simp [chainEntries]

@[simp] theorem chainEntries_append (pages : Nat → BMBitmapPage) (bs bs' : List Nat) :
    chainEntries pages (bs ++ bs') = chainEntries pages bs ++ chainEntries pages bs' := by
  simp [chainEntries]

theorem chainEntries_congr {pages pages' : Nat → BMBitmapPage} {bs : List Nat}
    (h : ∀ b ∈ bs, pages' b = pages b) : chainEntries pages' bs = chainEntries pages bs := by
  rw [chainEntries, chainEntries, List.flatMap_def, List.flatMap_def]
  congr 1
  apply List.map_congr_left
  intro b hb
  rw [h b hb]

/-- Each page records the number of bits up to its end, when `n` bits come before. -/
def LastOk (pages : Nat → BMBitmapPage) : Nat → List Nat → Prop
  | _, [] => True
  | n, b :: bs => (pages b).bmLastTidLocation = n + numBits (pages b).entries ∧
    LastOk pages (n + numBits (pages b).entries) bs

theorem lastOk_append (pages : Nat → BMBitmapPage) (n : Nat) (bs bs' : List Nat) :
    LastOk pages n (bs ++ bs') ↔
      LastOk pages n bs ∧ LastOk pages (n + numBits (chainEntries pages bs)) bs' := by
  induction bs generalizing n with
  | nil => simp [LastOk]
  | cons b bs ih =>
    simp only [List.cons_append, LastOk, ih, chainEntries_cons, numBits_append, Nat.add_assoc,
      and_assoc]

theorem LastOk.congr {pages pages' : Nat → BMBitmapPage} {n : Nat} {bs : List Nat}
    (h : LastOk pages n bs) (heq : ∀ b ∈ bs, pages' b = pages b) : LastOk pages' n bs := by
  induction bs generalizing n with
  | nil => trivial
  | cons b bs ih =>
    have hb := heq b (List.mem_cons_self ..)
    rw [LastOk, hb]
    exact ⟨h.1, ih h.2 fun b' hb' => heq b' (List.mem_cons_of_mem _ hb')⟩

/-! ## The invariant -/

/-- A page holds no more than fits, and no header bit past its words. -/
structure PageOk (L : PageLayout) (page : BMBitmapPage) : Prop where
  used : page.bmHrlWordsUsed ≤ L.wordsPerPage
  clean : CleanFrom page.hwords L.wordsPerPage page.bmHrlWordsUsed

structure ChainInv (L : PageLayout) (pages : Nat → BMBitmapPage) (nblocks : Nat)
    (head tail : Option Nat) (bs : List Nat) : Prop where
  seg : Seg pages head bs none
  nodup : bs.Nodup
  lt : ∀ b ∈ bs, b < nblocks
  tail : bs.getLast? = tail
  page : ∀ b ∈ bs, PageOk L (pages b)
  last : LastOk pages 0 bs

theorem chainInv_nil (L : PageLayout) (pages : Nat → BMBitmapPage) (nblocks : Nat) :
    ChainInv L pages nblocks none none [] :=
  ⟨rfl, List.nodup_nil, fun _ h => absurd h List.not_mem_nil, rfl,
    fun _ h => absurd h List.not_mem_nil, trivial⟩

section

variable {L : PageLayout} {pages : Nat → BMBitmapPage} {nblocks : Nat} {head tail : Option Nat}
  {bs : List Nat}

theorem ChainInv.head_eq (h : ChainInv L pages nblocks head tail bs) : head = bs.head? := by
  cases bs with
  | nil => exact h.seg
  | cons b bs => exact h.seg.1

theorem ChainInv.length_le (h : ChainInv L pages nblocks head tail bs) : bs.length ≤ nblocks := by
  have hsub : bs.toFinset ⊆ Finset.range nblocks := by
    intro b hb
    rw [Finset.mem_range]
    exact h.lt b (List.mem_toFinset.mp hb)
  have hcard := Finset.card_le_card hsub
  rwa [List.toFinset_card_of_nodup h.nodup, Finset.card_range] at hcard

theorem pagesEntries_of_seg {fuel : Nat} {h : Option Nat} (hseg : Seg pages h bs none)
    (hfuel : bs.length ≤ fuel) : pagesEntries pages fuel h = chainEntries pages bs := by
  induction bs generalizing fuel h with
  | nil =>
    rw [show h = none from hseg]
    cases fuel <;> rfl
  | cons b bs ih =>
    obtain ⟨rfl, hseg⟩ := hseg
    obtain ⟨n, rfl⟩ : ∃ n, fuel = n + 1 :=
      ⟨fuel - 1, by simp only [List.length_cons] at hfuel; omega⟩
    rw [pagesEntries, chainEntries_cons, ih hseg (by simp only [List.length_cons] at hfuel; omega)]

theorem ChainInv.pagesEntries (h : ChainInv L pages nblocks head tail bs) :
    pagesEntries pages nblocks head = chainEntries pages bs :=
  pagesEntries_of_seg h.seg h.length_le

/-- **Replacing some of the pages.** The pages `mid` become `mid'`, the first block staying the
same; the pages before and after are unchanged. Unless they are the last pages, the new ones have
as many bits as the old ones. -/
theorem ChainInv.replace (mid post mid' : List Nat) {pre : List Nat} {b : Nat}
    {pages' : Nat → BMBitmapPage} {nblocks' : Nat} {tail' : Option Nat}
    (h : ChainInv L pages nblocks head tail (pre ++ (b :: mid ++ post)))
    (hpre : ∀ c ∈ pre, pages' c = pages c) (hpost : ∀ c ∈ post, pages' c = pages c)
    (hseg : ∀ m, Seg pages (pages b).bmBitmapNext mid m → Seg pages' (pages' b).bmBitmapNext mid' m)
    (hnew : ∀ c ∈ mid', c ∈ mid ∨ c = nblocks ∧ nblocks < nblocks') (hnodup : (b :: mid').Nodup)
    (hle : nblocks ≤ nblocks') (htail : (pre ++ (b :: mid' ++ post)).getLast? = tail')
    (hpage : ∀ c ∈ b :: mid', PageOk L (pages' c))
    (hlast : LastOk pages' (numBits (chainEntries pages pre)) (b :: mid'))
    (hbits : post = [] ∨ numBits (chainEntries pages' (b :: mid')) =
      numBits (chainEntries pages (b :: mid))) :
    ChainInv L pages' nblocks' head tail' (pre ++ (b :: mid' ++ post)) := by
  obtain ⟨m₁, s₁, s₂⟩ := (seg_append ..).mp h.seg
  obtain ⟨m₂, s₂, s₃⟩ := (seg_append ..).mp s₂
  obtain ⟨l₁, l₂⟩ := (lastOk_append ..).mp h.last
  obtain ⟨l₂, l₃⟩ := (lastOk_append ..).mp l₂
  rw [Nat.zero_add] at l₂ l₃
  have hpreEq : chainEntries pages' pre = chainEntries pages pre := chainEntries_congr hpre
  have hfresh : nblocks ∉ pre ++ (b :: mid ++ post) := by
    intro hmem
    exact absurd (h.lt nblocks hmem) (lt_irrefl _)
  have hdis := List.nodup_append.mp h.nodup
  have hdis' := List.nodup_append.mp hdis.2.1
  have hmem' : ∀ c ∈ b :: mid', c ∈ b :: mid ∨ c = nblocks ∧ nblocks < nblocks' := by
    intro c hc
    rcases List.mem_cons.mp hc with rfl | hc
    · exact Or.inl (List.mem_cons_self ..)
    · exact (hnew c hc).imp_left (List.mem_cons_of_mem _)
  refine ⟨?_, ?_, ?_, htail, ?_, ?_⟩
  · refine (seg_append ..).mpr ⟨m₁, s₁.congr fun c hc => by rw [hpre c hc], ?_⟩
    refine (seg_append ..).mpr ⟨m₂, ⟨s₂.1, hseg m₂ s₂.2⟩, s₃.congr fun c hc => by rw [hpost c hc]⟩
  · rw [List.nodup_append]
    refine ⟨hdis.1, ?_, ?_⟩
    · rw [List.nodup_append]
      refine ⟨hnodup, hdis'.2.1, ?_⟩
      intro c hc d hd
      rcases hmem' c hc with hc | ⟨rfl, -⟩
      · exact hdis'.2.2 c hc d hd
      · intro hcd
        exact hfresh (List.mem_append_right _ (List.mem_append_right _ (hcd ▸ hd)))
    · intro c hc d hd
      rcases List.mem_append.mp hd with hd | hd
      · rcases hmem' d hd with hd | ⟨rfl, -⟩
        · exact hdis.2.2 c hc d (List.mem_append_left _ hd)
        · intro hcd
          exact hfresh (List.mem_append_left _ (hcd ▸ hc))
      · exact hdis.2.2 c hc d (List.mem_append_right _ hd)
  · intro c hc
    rcases List.mem_append.mp hc with hc | hc
    · exact (h.lt c (List.mem_append_left _ hc)).trans_le hle
    · rcases List.mem_append.mp hc with hc | hc
      · rcases hmem' c hc with hc | ⟨rfl, hlt⟩
        · exact (h.lt c (List.mem_append_right _ (List.mem_append_left _ hc))).trans_le hle
        · exact hlt
      · exact (h.lt c (List.mem_append_right _ (List.mem_append_right _ hc))).trans_le hle
  · intro c hc
    rcases List.mem_append.mp hc with hc | hc
    · rw [hpre c hc]
      exact h.page c (List.mem_append_left _ hc)
    · rcases List.mem_append.mp hc with hc | hc
      · exact hpage c hc
      · rw [hpost c hc]
        exact h.page c (List.mem_append_right _ (List.mem_append_right _ hc))
  · refine (lastOk_append ..).mpr ⟨l₁.congr hpre, ?_⟩
    refine (lastOk_append ..).mpr ?_
    rw [hpreEq, Nat.zero_add]
    refine ⟨hlast, ?_⟩
    rcases hbits with rfl | hbits
    · trivial
    · rw [hbits]
      exact l₃.congr hpost

/-- The block after the last one. -/
theorem ChainInv.next_last {pre : List Nat} {t : Nat}
    (h : ChainInv L pages nblocks head tail (pre ++ [t])) : (pages t).bmBitmapNext = none := by
  obtain ⟨m, -, hseg⟩ := (seg_append ..).mp h.seg
  exact hseg.2

end

/-! ## Writing a buffer to the end -/

theorem pageOk_init (L : PageLayout) : PageOk L bitmapInitBitmappage := by
  refine ⟨Nat.zero_le _, ?_⟩
  intro i _ _
  show isFillWord (fun _ => 0) i = false
  simp [isFillWord]

theorem entries_init : bitmapInitBitmappage.entries = [] := rfl

/-- A page after the words from `start` on have been written to it. -/
structure Written (L : PageLayout) (page page' : BMBitmapPage) (buf : BMTIDBuffer)
    (start n : Nat) : Prop where
  entries : page'.entries = page.entries ++ entriesFrom buf.cwords buf.hwords start n
  ok : PageOk L page'
  next : page'.bmBitmapNext = page.bmBitmapNext
  last : page'.bmLastTidLocation =
    if n = 0 then page.bmLastTidLocation else buf.lastTids (start + n - 1)

theorem written_of_ok {L : PageLayout} {page : BMBitmapPage} (h : PageOk L page)
    {buf : BMTIDBuffer} {start : Nat} (hstart : start ≤ buf.curword) :
    Written L page (bitmapWriteBitmapwordsOnPage L page buf start).1 buf start
      (min (buf.curword - start) (L.wordsPerPage - page.bmHrlWordsUsed)) ∧
    (bitmapWriteBitmapwordsOnPage L page buf start).2 =
      min (buf.curword - start) (L.wordsPerPage - page.bmHrlWordsUsed) := by
  have hused := h.used
  obtain ⟨h₁, h₂, h₃, h₄, h₅, h₆⟩ := bitmapWriteBitmapwordsOnPage_spec L buf start h.used
    h.clean
  rw [BMTIDBuffer.wordsFrom_of_le hstart] at h₁
  rw [h₁] at h₂ h₃ h₆
  refine ⟨⟨h₂, ⟨by omega, h₄⟩, h₅, h₆⟩, h₁⟩

/-- The LOV item after a buffer was written, up to the pointers to the pages. -/
structure LastWords (lov : BMLOVItem) (buf : BMTIDBuffer) : Prop where
  compword : lov.bmLastCompword = buf.lastCompword
  word : lov.bmLastWord = buf.lastWord
  header : lov.lovWordsHeader = if buf.isLastCompwordFill then 2 else 0
  setbit : lov.bmLastSetbit = buf.lastTid
  location : lov.bmLastTidLocation = buf.lastTid - buf.lastTid % 64

/-- The pages a buffer is written to extend the chain by its entries. -/
def Appends (L : PageLayout) (v : BmVector) (buf : BMTIDBuffer) (bs : List Nat) : Prop :=
  ∃ written nblocks' bs',
    writePagesLoop L v buf maxBitmapPagesPerInsert true 0 v.nblocks = .ok (written, nblocks') ∧
    ChainInv L (linkPages written v.pages) nblocks'
      (if v.lovItem.bmLovHead.isSome then v.lovItem.bmLovHead else written.head?.map Prod.fst)
      (written.getLast?.map Prod.fst) bs' ∧
    chainEntries (linkPages written v.pages) bs' = chainEntries v.pages bs ++ buf.entries

section

variable {L : PageLayout} {v : BmVector} {buf : BMTIDBuffer} {pre : List Nat} {t : Nat}

theorem entriesFrom_split (buf : BMTIDBuffer) {k : Nat} (hk : k ≤ buf.curword) :
    entriesFrom buf.cwords buf.hwords 0 k ++
      entriesFrom buf.cwords buf.hwords k (buf.curword - k) = buf.entries := by
  rw [BMTIDBuffer.entries]
  conv_rhs => rw [show buf.curword = k + (buf.curword - k) by omega, entriesFrom_add, Nat.zero_add]

/-- The first page of a vector. -/
theorem appends_first (h : ChainInv L v.pages v.nblocks v.lovItem.bmLovHead v.lovItem.bmLovTail [])
    (h0 : 0 < buf.curword) (hcur : buf.curword ≤ L.wordsPerPage) (htids : LastTidsOk 0 buf) :
    Appends L v buf [] := by
  have hhead : v.lovItem.bmLovHead = none := h.head_eq
  obtain ⟨hw, hn⟩ := written_of_ok (pageOk_init L) (Nat.zero_le buf.curword)
  have hmin : min (buf.curword - 0) (L.wordsPerPage - bitmapInitBitmappage.bmHrlWordsUsed) =
      buf.curword := by
    show min (buf.curword - 0) (L.wordsPerPage - 0) = buf.curword
    omega
  rw [hmin] at hw hn
  generalize hrdef : bitmapWriteBitmapwordsOnPage L bitmapInitBitmappage buf 0 = r at hw hn
  refine ⟨[(v.nblocks, r.1)], v.nblocks + 1, [v.nblocks], ?_, ?_, ?_⟩
  · simp only [writePagesLoop, hhead, Option.isSome_none, Bool.and_false, Bool.false_eq_true,
      if_false, hrdef, hn, Nat.zero_add, Nat.sub_self, lt_irrefl]
  · simp only [hhead, Option.isSome_none, Bool.false_eq_true, if_false, linkPages, List.head?_cons,
      List.getLast?_singleton, Option.map_some]
    refine ⟨⟨rfl, ?_⟩, List.nodup_singleton _, ?_, rfl, ?_, ?_, trivial⟩
    · rw [Function.update_self]
      exact hw.next
    · intro b hb
      rw [List.mem_singleton.mp hb]
      exact Nat.lt_succ_self _
    · intro b hb
      rw [List.mem_singleton.mp hb, Function.update_self]
      exact hw.ok
    · rw [Function.update_self, hw.last, if_neg (by omega), htids _ (by omega), hw.entries,
        entries_init, List.nil_append]
      have hsub : 0 + buf.curword - 1 + 1 = buf.curword := by omega
      rw [hsub]
  · rw [linkPages, chainEntries_cons, Function.update_self, hw.entries, entries_init]
    simp only [chainEntries_nil, List.append_nil, List.nil_append]
    rfl

/-- What the last page records after as many words as fit were written to it. -/
theorem lastTid_written
    (h : ChainInv L v.pages v.nblocks v.lovItem.bmLovHead v.lovItem.bmLovTail (pre ++ [t]))
    (htids : LastTidsOk (numBits (chainEntries v.pages (pre ++ [t]))) buf) {page' : BMBitmapPage}
    {k : Nat} (hk : k ≤ buf.curword) (hw : Written L (v.pages t) page' buf 0 k) :
    page'.bmLastTidLocation = numBits (chainEntries v.pages pre) + numBits page'.entries := by
  have htot : numBits (chainEntries v.pages (pre ++ [t])) =
      numBits (chainEntries v.pages pre) + numBits (v.pages t).entries := by
    simp only [chainEntries_append, chainEntries_cons, chainEntries_nil, List.append_nil,
      numBits_append]
  have hl := ((lastOk_append ..).mp h.last).2.1
  rw [Nat.zero_add] at hl
  rw [hw.last, hw.entries, numBits_append]
  split_ifs with hk0
  · rw [hk0, hl]
    simp
  · rw [htids _ (by omega), htot, Nat.zero_add, Nat.sub_add_cancel (by omega)]
    omega

/-- All words fit into the last page. -/
theorem appends_fit
    (h : ChainInv L v.pages v.nblocks v.lovItem.bmLovHead v.lovItem.bmLovTail (pre ++ [t]))
    (hfit : buf.curword ≤ L.wordsPerPage - (v.pages t).bmHrlWordsUsed)
    (htids : LastTidsOk (numBits (chainEntries v.pages (pre ++ [t]))) buf) :
    Appends L v buf (pre ++ [t]) := by
  have hmem : t ∈ pre ++ [t] := by simp
  have htail : v.lovItem.bmLovTail = some t := by
    rw [← h.tail]
    simp
  have hhead : v.lovItem.bmLovHead.isSome = true := by
    rw [h.head_eq]
    cases pre <;> rfl
  obtain ⟨hw, hn⟩ := written_of_ok (h.page t hmem) (Nat.zero_le buf.curword)
  have hmin : min (buf.curword - 0) (L.wordsPerPage - (v.pages t).bmHrlWordsUsed) =
      buf.curword := by omega
  rw [hmin] at hw hn
  have hlast' := lastTid_written h htids le_rfl hw
  generalize hrdef : bitmapWriteBitmapwordsOnPage L (v.pages t) buf 0 = r at hw hn hlast'
  have hpre : ∀ c ∈ pre, Function.update v.pages t r.1 c = v.pages c := by
    intro c hc
    apply Function.update_of_ne
    exact (List.nodup_append.mp h.nodup).2.2 c hc t (List.mem_singleton.mpr rfl)
  refine ⟨[(t, r.1)], v.nblocks, pre ++ (t :: [] ++ []), ?_, ?_, ?_⟩
  · simp only [writePagesLoop, hhead, htail, Option.getD_some, Bool.and_self, if_true, hrdef, hn,
      Nat.zero_add, Nat.sub_self, lt_irrefl, if_false]
  · simp only [hhead, if_true, linkPages, List.getLast?_singleton, Option.map_some]
    refine ChainInv.replace [] [] [] h hpre ?_ ?_ ?_ ?_ le_rfl ?_ ?_ ?_ (Or.inl rfl)
    · intro c hc
      exact absurd hc List.not_mem_nil
    · intro m hm
      rw [Function.update_self, hw.next]
      exact hm
    · intro c hc
      exact absurd hc List.not_mem_nil
    · simp
    · simp
    · intro c hc
      rw [List.mem_singleton.mp hc, Function.update_self]
      exact hw.ok
    · refine ⟨?_, trivial⟩
      rw [Function.update_self]
      exact hlast'
  · simp only [linkPages, chainEntries_append, chainEntries_cons, chainEntries_nil, List.append_nil,
      Function.update_self, chainEntries_congr hpre, hw.entries, List.append_assoc]
    rfl

/-- The words that do not fit into the last page go to a new one. -/
theorem appends_spill
    (h : ChainInv L v.pages v.nblocks v.lovItem.bmLovHead v.lovItem.bmLovTail (pre ++ [t]))
    (hcur : buf.curword ≤ L.wordsPerPage)
    (hfit : L.wordsPerPage - (v.pages t).bmHrlWordsUsed < buf.curword)
    (htids : LastTidsOk (numBits (chainEntries v.pages (pre ++ [t]))) buf) :
    Appends L v buf (pre ++ [t]) := by
  have hmem : t ∈ pre ++ [t] := by simp
  have htail : v.lovItem.bmLovTail = some t := by
    rw [← h.tail]
    simp
  have hhead : v.lovItem.bmLovHead.isSome = true := by
    rw [h.head_eq]
    cases pre <;> rfl
  have htn : t ≠ v.nblocks := (h.lt t hmem).ne
  obtain ⟨hw, hn⟩ := written_of_ok (h.page t hmem) (Nat.zero_le buf.curword)
  generalize hkdef : min (buf.curword - 0) (L.wordsPerPage - (v.pages t).bmHrlWordsUsed) = k
    at hw hn
  have hlast' := lastTid_written h htids (by omega) hw
  generalize hrdef : bitmapWriteBitmapwordsOnPage L (v.pages t) buf 0 = r at hw hn hlast'
  have hk : 0 + k ≤ buf.curword := by omega
  obtain ⟨hw', hn'⟩ := written_of_ok (pageOk_init L) hk
  have hmin : min (buf.curword - (0 + k)) (L.wordsPerPage - bitmapInitBitmappage.bmHrlWordsUsed) =
      buf.curword - k := by
    show min (buf.curword - (0 + k)) (L.wordsPerPage - 0) = buf.curword - k
    omega
  rw [hmin] at hw' hn'
  generalize hrdef' :
    bitmapWriteBitmapwordsOnPage L bitmapInitBitmappage buf (0 + k) = r' at hw' hn'
  have hmore : 0 < buf.curword - (0 + k) := by omega
  have hdone : ¬ 0 < buf.curword - (0 + k + (buf.curword - k)) := by omega
  -- The pages after the write.
  generalize hpdef : Function.update (Function.update v.pages t
    { r.1 with bmBitmapNext := some v.nblocks }) v.nblocks r'.1 = pages'
  have ht : pages' t = { r.1 with bmBitmapNext := some v.nblocks } := by
    rw [← hpdef, Function.update_of_ne htn, Function.update_self]
  have hnew : pages' v.nblocks = r'.1 := by
    rw [← hpdef, Function.update_self]
  have hpre : ∀ c ∈ pre, pages' c = v.pages c := by
    intro c hc
    rw [← hpdef, Function.update_of_ne (h.lt c (List.mem_append_left _ hc)).ne]
    apply Function.update_of_ne
    exact (List.nodup_append.mp h.nodup).2.2 c hc t (List.mem_singleton.mpr rfl)
  have hte : (pages' t).entries =
      (v.pages t).entries ++ entriesFrom buf.cwords buf.hwords 0 k := by
    rw [ht]
    exact hw.entries
  have hne : (pages' v.nblocks).entries =
      entriesFrom buf.cwords buf.hwords k (buf.curword - k) := by
    rw [hnew, hw'.entries, entries_init, List.nil_append, Nat.zero_add]
  refine ⟨[(t, r.1), (v.nblocks, r'.1)], v.nblocks + 1, pre ++ (t :: [v.nblocks] ++ []), ?_, ?_, ?_⟩
  · simp only [writePagesLoop, hhead, htail, Option.getD_some, Bool.and_self, if_true, hrdef, hn,
      hmore, Bool.false_and, Bool.false_eq_true, if_false, hrdef', hn', hdone]
  · simp only [hhead, if_true, linkPages, List.getLast?_cons_cons, List.getLast?_singleton,
      Option.map_some, hpdef]
    refine ChainInv.replace [] [] [v.nblocks] h hpre ?_ ?_ ?_ ?_ (Nat.le_succ _) ?_ ?_ ?_
      (Or.inl rfl)
    · intro c hc
      exact absurd hc List.not_mem_nil
    · intro m hm
      rw [show m = none from hm.symm.trans h.next_last, ht]
      refine ⟨rfl, ?_⟩
      rw [hnew]
      exact hw'.next
    · intro c hc
      exact Or.inr ⟨List.mem_singleton.mp hc, Nat.lt_succ_self _⟩
    · simp [htn]
    · simp
    · intro c hc
      rcases List.mem_cons.mp hc with rfl | hc
      · rw [ht]
        exact ⟨hw.ok.used, hw.ok.clean⟩
      · rw [List.mem_singleton.mp hc, hnew]
        exact hw'.ok
    · refine ⟨?_, ?_, trivial⟩
      · rw [ht]
        exact hlast'
      · have hsub : 0 + k + (buf.curword - k) - 1 + 1 = buf.curword := by omega
        rw [hne, hte, hnew, hw'.last, if_neg (by omega), htids _ (by omega), hsub]
        rw [show entriesFrom buf.cwords buf.hwords 0 buf.curword = buf.entries from rfl,
          ← entriesFrom_split buf (show k ≤ buf.curword by omega)]
        simp only [chainEntries_append, chainEntries_cons, chainEntries_nil, List.append_nil,
          numBits_append]
        omega
  · simp only [linkPages, hpdef, chainEntries_append, chainEntries_cons, chainEntries_nil,
      List.append_nil, chainEntries_congr hpre, hte, hne, List.append_assoc]
    rw [entriesFrom_split buf (show k ≤ buf.curword by omega)]

end

/-- **Writing a buffer.** The chain gets the entries of the buffer, and the LOV item its last
words. -/
theorem bitmapWriteNewBitmapwords_spec (L : PageLayout) {v : BmVector} {bs : List Nat}
    (h : ChainInv L v.pages v.nblocks v.lovItem.bmLovHead v.lovItem.bmLovTail bs)
    {buf : BMTIDBuffer} (hcur : buf.curword ≤ L.wordsPerPage)
    (htids : LastTidsOk (numBits (chainEntries v.pages bs)) buf) :
    ∃ v' bs', bitmapWriteNewBitmapwords L v buf = .ok v' ∧
      ChainInv L v'.pages v'.nblocks v'.lovItem.bmLovHead v'.lovItem.bmLovTail bs' ∧
      chainEntries v'.pages bs' = chainEntries v.pages bs ++ buf.entries ∧
      LastWords v'.lovItem buf := by
  simp only [bitmapWriteNewBitmapwords]
  by_cases h0 : 0 < buf.curword
  · have happ : Appends L v buf bs := by
      rcases List.eq_nil_or_concat' bs with rfl | ⟨pre, t, rfl⟩
      · exact appends_first h h0 hcur htids
      · by_cases hfit : buf.curword ≤ L.wordsPerPage - (v.pages t).bmHrlWordsUsed
        · exact appends_fit h hfit htids
        · exact appends_spill h hcur (by omega) htids
    obtain ⟨written, nblocks', bs', hloop, hchain, hentries⟩ := happ
    rw [if_pos h0, hloop]
    exact ⟨_, bs', rfl, hchain, hentries, ⟨rfl, rfl, rfl, rfl, rfl⟩⟩
  · have hnil : buf.entries = [] := by
      rw [BMTIDBuffer.entries, show buf.curword = 0 by omega]
      rfl
    rw [if_neg h0]
    exact ⟨_, bs, rfl, h, by rw [hnil, List.append_nil], ⟨rfl, rfl, rfl, rfl, rfl⟩⟩

end Hdb.Bitmap
