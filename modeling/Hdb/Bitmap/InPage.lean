import Hdb.Bitmap.Chain

/-!
# Setting a bit in a page

A tid that is not in the last two words is looked up by the last tids the pages record, then by the
lengths of the words of the page. A literal word, or a fill word of length one, changes in place; a
longer fill word of zeros is split. The new words may push others out of the page, into the next one
or into a new one. In all cases the chain stands for the same bits with one more set
(`updatesetbitInpage_spec`).
-/

namespace Hdb.Bitmap

/-! ## Finding the page and the word -/

theorem numBits_mod (es : List Entry) : numBits es % 64 = 0 := by
  induction es with
  | nil => rfl
  | cons e es ih =>
    rw [numBits, Segments.total_cons]
    have he : entryLen e % 64 = 0 := by
      unfold entryLen
      split_ifs
      · exact Nat.mul_mod_left _ _
      · rfl
    change (entryLen e + numBits es) % 64 = 0
    omega

theorem findbitmappage_of_seg {v : BmVector} {tidnum : Nat} {bs : List Nat} {fuel n : Nat}
    {hd : Option Nat} (hseg : Seg v.pages hd bs none) (hlast : LastOk v.pages n bs)
    (hfuel : bs.length ≤ fuel) (hlt : n < tidnum)
    (hle : tidnum ≤ n + numBits (chainEntries v.pages bs)) :
    ∃ pre b post, bs = pre ++ b :: post ∧
      findbitmappage v tidnum fuel hd (n + 1) =
        .ok (b, n + numBits (chainEntries v.pages pre) + 1) ∧
      n + numBits (chainEntries v.pages pre) < tidnum ∧
      tidnum ≤ n + numBits (chainEntries v.pages pre) + numBits (v.pages b).entries := by
  induction bs generalizing fuel n hd with
  | nil =>
    rw [chainEntries_nil, numBits, Segments.total_nil] at hle
    omega
  | cons b bs ih =>
    obtain ⟨rfl, hseg⟩ := hseg
    obtain ⟨hb, hlast⟩ := hlast
    obtain ⟨m, rfl⟩ : ∃ m, fuel = m + 1 :=
      ⟨fuel - 1, by simp only [List.length_cons] at hfuel; omega⟩
    rw [findbitmappage]
    by_cases hfound : tidnum ≤ (v.pages b).bmLastTidLocation
    · refine ⟨[], b, bs, rfl, ?_, ?_, ?_⟩
      · rw [if_pos hfound]
        rfl
      · rw [chainEntries_nil, numBits, Segments.total_nil]
        omega
      · rw [chainEntries_nil, numBits, Segments.total_nil, Nat.add_zero, ← hb]
        exact hfound
    · rw [chainEntries_cons, numBits_append] at hle
      have hfuel' : bs.length ≤ m := by
        simp only [List.length_cons] at hfuel
        omega
      obtain ⟨pre, c, post, rfl, h₁, h₂, h₃⟩ := ih hseg hlast hfuel' (by omega) (by omega)
      rw [if_neg hfound, hb]
      refine ⟨b :: pre, c, post, rfl, ?_, ?_, ?_⟩
      · rw [h₁, chainEntries_cons, numBits_append, Nat.add_assoc n]
      · rw [chainEntries_cons, numBits_append]
        omega
      · rw [chainEntries_cons, numBits_append]
        omega

theorem findWord_spec {page : BMBitmapPage} {first tidnum : Nat} (hfirst : 0 < first) (n i : Nat)
    (hlt : first + numBits (entriesFrom page.cwords page.hwords 0 i) ≤ tidnum)
    (hle : tidnum < first + numBits (entriesFrom page.cwords page.hwords 0 (i + n))) :
    ∃ w, findWord page first tidnum n i (numBits (entriesFrom page.cwords page.hwords 0 i)) =
        some (w, numBits (entriesFrom page.cwords page.hwords 0 (w + 1))) ∧
      w < i + n ∧ first + numBits (entriesFrom page.cwords page.hwords 0 w) ≤ tidnum ∧
      tidnum < first + numBits (entriesFrom page.cwords page.hwords 0 (w + 1)) := by
  induction n generalizing i with
  | zero =>
    rw [Nat.add_zero] at hle
    omega
  | succ n ih =>
    have hstep : numBits (entriesFrom page.cwords page.hwords 0 i) +
        (if isFillWord page.hwords i then fillLength (page.cwords i) * 64 else 64) =
        numBits (entriesFrom page.cwords page.hwords 0 (i + 1)) := by
      rw [entriesFrom_add, numBits_append, Nat.zero_add, entriesFrom_succ]
      simp [entryLen]
    simp only [findWord, hstep]
    by_cases hfound : tidnum ≤ first + numBits (entriesFrom page.cwords page.hwords 0 (i + 1)) - 1
    · rw [if_pos hfound]
      exact ⟨i, rfl, by omega, hlt, by omega⟩
    · rw [if_neg hfound]
      have harg : i + (n + 1) = i + 1 + n := by omega
      obtain ⟨w, h₁, h₂, h₃, h₄⟩ := ih (i + 1) (by omega) (by rw [← harg]; exact hle)
      exact ⟨w, h₁, by omega, h₃, h₄⟩

/-! ## One page -/

/-- The entries of a page around a word. -/
theorem entries_around (page : BMBitmapPage) {w : Nat} (hw : w < page.bmHrlWordsUsed) :
    page.entries = entriesFrom page.cwords page.hwords 0 w ++
      ([(page.cwords w, isFillWord page.hwords w)] ++
        entriesFrom page.cwords page.hwords (w + 1) (page.bmHrlWordsUsed - w - 1)) := by
  rw [BMBitmapPage.entries]
  conv_lhs => rw [show page.bmHrlWordsUsed = w + (1 + (page.bmHrlWordsUsed - w - 1)) by omega,
    entriesFrom_add, entriesFrom_add, Nat.zero_add]
  rw [entriesFrom_succ, entriesFrom_zero]

/-- A page with one word replaced. -/
theorem entries_setWord {page page' : BMBitmapPage} {w : Nat} (hw : w < page.bmHrlWordsUsed)
    {e : Entry} (hused : page'.bmHrlWordsUsed = page.bmHrlWordsUsed)
    (hc : ∀ i, i ≠ w → page'.cwords i = page.cwords i)
    (hh : ∀ i, i ≠ w → isFillWord page'.hwords i = isFillWord page.hwords i)
    (he : (page'.cwords w, isFillWord page'.hwords w) = e) :
    page'.entries = entriesFrom page.cwords page.hwords 0 w ++
      ([e] ++ entriesFrom page.cwords page.hwords (w + 1) (page.bmHrlWordsUsed - w - 1)) := by
  rw [entries_around page' (hused ▸ hw), he, hused]
  congr 1
  · apply entriesFrom_congr
    · intro j hj
      exact hc _ (by omega)
    · intro j hj
      exact hh _ (by omega)
  · congr 1
    apply entriesFrom_congr
    · intro j hj
      exact hc _ (by omega)
    · intro j hj
      exact hh _ (by omega)

theorem cleanFrom_setWord {L : PageLayout} {page : BMBitmapPage} (h : PageOk L page) {w : Nat}
    (hw : w < page.bmHrlWordsUsed) {hwords : Nat → BmHrlWord}
    (hh : ∀ i, i ≠ w → isFillWord hwords i = isFillWord page.hwords i) :
    CleanFrom hwords L.wordsPerPage page.bmHrlWordsUsed := by
  intro i hi hi'
  rw [hh i (by omega)]
  exact h.clean i hi hi'

section

variable {L : PageLayout} {pages : Nat → BMBitmapPage} {nblocks : Nat} {head tail : Option Nat}
  {pre post : List Nat} {b : Nat}

/-- Changing one page, but not the number of its bits. -/
theorem ChainInv.setPage (h : ChainInv L pages nblocks head tail (pre ++ b :: post))
    {page' : BMBitmapPage} (hok : PageOk L page')
    (hnext : page'.bmBitmapNext = (pages b).bmBitmapNext)
    (hlast : page'.bmLastTidLocation = (pages b).bmLastTidLocation)
    (hbits : numBits page'.entries = numBits (pages b).entries) :
    ChainInv L (Function.update pages b page') nblocks head tail (pre ++ b :: post) ∧
      chainEntries (Function.update pages b page') (pre ++ b :: post) =
        chainEntries pages pre ++ (page'.entries ++ chainEntries pages post) := by
  have hdis := List.nodup_append.mp h.nodup
  have hpre : ∀ c ∈ pre, Function.update pages b page' c = pages c := by
    intro c hc
    exact Function.update_of_ne (hdis.2.2 c hc b (List.mem_cons_self ..)) _ _
  have hpost : ∀ c ∈ post, Function.update pages b page' c = pages c := by
    intro c hc
    apply Function.update_of_ne
    intro hcb
    exact (List.nodup_cons.mp hdis.2.1).1 (hcb ▸ hc)
  have hl := ((lastOk_append ..).mp h.last).2.1
  rw [Nat.zero_add] at hl
  constructor
  · refine ChainInv.replace [] post [] h hpre hpost ?_ ?_ ?_ le_rfl h.tail ?_ ?_ (Or.inr ?_)
    · intro m hm
      rw [Function.update_self, hnext]
      exact hm
    · intro c hc
      exact absurd hc List.not_mem_nil
    · exact List.nodup_singleton _
    · intro c hc
      rw [List.mem_singleton.mp hc, Function.update_self]
      exact hok
    · refine ⟨?_, trivial⟩
      rw [Function.update_self, hlast, hbits, hl]
    · simp only [chainEntries_cons, chainEntries_nil, List.append_nil, Function.update_self, hbits]
  · rw [chainEntries_append, chainEntries_cons, Function.update_self, chainEntries_congr hpre,
      chainEntries_congr hpost]

/-- Moving the last words of a page to the next one. -/
theorem ChainInv.moveNext {nx : Nat}
    (h : ChainInv L pages nblocks head tail (pre ++ b :: nx :: post))
    {page' next' : BMBitmapPage} {left : List Entry} (hok : PageOk L page') (hok' : PageOk L next')
    (hnext : page'.bmBitmapNext = (pages b).bmBitmapNext)
    (hnext' : next'.bmBitmapNext = (pages nx).bmBitmapNext)
    (hlast : page'.bmLastTidLocation = (pages b).bmLastTidLocation - numBits left)
    (hlast' : next'.bmLastTidLocation = (pages nx).bmLastTidLocation)
    (hbits : numBits (page'.entries ++ left) = numBits (pages b).entries)
    (hentries : next'.entries = left ++ (pages nx).entries) :
    let pages' := Function.update (Function.update pages b page') nx next'
    ChainInv L pages' nblocks head tail (pre ++ b :: nx :: post) ∧
      chainEntries pages' (pre ++ b :: nx :: post) =
        chainEntries pages pre ++ ((page'.entries ++ left) ++ chainEntries pages (nx :: post)) := by
  intro pages'
  have hdis := List.nodup_append.mp h.nodup
  have hbn : b ≠ nx := by
    intro heq
    exact (List.nodup_cons.mp hdis.2.1).1 (heq ▸ List.mem_cons_self ..)
  have hb : pages' b = page' := by
    show Function.update (Function.update pages b page') nx next' b = page'
    rw [Function.update_of_ne hbn, Function.update_self]
  have hn : pages' nx = next' := Function.update_self ..
  have hout : ∀ c, c ≠ b → c ≠ nx → pages' c = pages c := by
    intro c hcb hcn
    show Function.update (Function.update pages b page') nx next' c = pages c
    rw [Function.update_of_ne hcn, Function.update_of_ne hcb]
  have hpre : ∀ c ∈ pre, pages' c = pages c := by
    intro c hc
    apply hout
    · exact hdis.2.2 c hc b (List.mem_cons_self ..)
    · exact hdis.2.2 c hc nx (List.mem_cons_of_mem _ (List.mem_cons_self ..))
  have hpost : ∀ c ∈ post, pages' c = pages c := by
    intro c hc
    have hd := List.nodup_cons.mp hdis.2.1
    apply hout
    · intro heq
      exact hd.1 (List.mem_cons_of_mem _ (heq ▸ hc))
    · intro heq
      exact (List.nodup_cons.mp hd.2).1 (heq ▸ hc)
  obtain ⟨hl, hl', -⟩ := ((lastOk_append ..).mp h.last).2
  rw [Nat.zero_add] at hl hl'
  rw [numBits_append] at hbits
  have htot : numBits next'.entries = numBits left + numBits (pages nx).entries := by
    rw [hentries, numBits_append]
  constructor
  · refine ChainInv.replace [nx] post [nx] h hpre hpost ?_ ?_ ?_ le_rfl h.tail ?_ ?_ (Or.inr ?_)
    · intro m hm
      refine ⟨?_, ?_⟩
      · rw [hb, hnext]
        exact hm.1
      · rw [hn, hnext']
        exact hm.2
    · intro c hc
      exact Or.inl hc
    · simp [hbn]
    · intro c hc
      rcases List.mem_cons.mp hc with rfl | hc
      · rw [hb]
        exact hok
      · rw [List.mem_singleton.mp hc, hn]
        exact hok'
    · refine ⟨?_, ?_, trivial⟩
      · rw [hb, hlast, hl]
        omega
      · rw [hn, hb, hlast', hl', htot]
        omega
    · simp only [chainEntries_cons, chainEntries_nil, List.append_nil, numBits_append, hb, hn, htot]
      omega
  · simp only [chainEntries_append, chainEntries_cons, chainEntries_congr hpre,
      chainEntries_congr hpost, hb, hn, hentries, List.append_assoc]

/-- Moving the last words of a page to a new one right after it. -/
theorem ChainInv.moveNew (h : ChainInv L pages nblocks head tail (pre ++ b :: post))
    {page' next' : BMBitmapPage} (hok : PageOk L page') (hok' : PageOk L next')
    (hnext : page'.bmBitmapNext = some nblocks)
    (hnext' : next'.bmBitmapNext = (pages b).bmBitmapNext)
    (hlast : page'.bmLastTidLocation = (pages b).bmLastTidLocation - numBits next'.entries)
    (hlast' : next'.bmLastTidLocation = (pages b).bmLastTidLocation)
    (hbits : numBits (page'.entries ++ next'.entries) = numBits (pages b).entries) :
    let pages' := Function.update (Function.update pages b page') nblocks next'
    ChainInv L pages' (nblocks + 1) head
        (if (pages b).bmBitmapNext = none then some nblocks else tail)
        (pre ++ b :: nblocks :: post) ∧
      chainEntries pages' (pre ++ b :: nblocks :: post) =
        chainEntries pages
        pre ++ ((page'.entries ++ next'.entries) ++ chainEntries pages post) := by
  intro pages'
  have hdis := List.nodup_append.mp h.nodup
  have hne : ∀ c ∈ pre ++ b :: post, c ≠ nblocks := fun c hc => (h.lt c hc).ne
  have hbn : b ≠ nblocks := hne b (by simp)
  have hb : pages' b = page' := by
    show Function.update (Function.update pages b page') nblocks next' b = page'
    rw [Function.update_of_ne hbn, Function.update_self]
  have hn : pages' nblocks = next' := Function.update_self ..
  have hout : ∀ c ∈ pre ++ b :: post, c ≠ b → pages' c = pages c := by
    intro c hc hcb
    show Function.update (Function.update pages b page') nblocks next' c = pages c
    rw [Function.update_of_ne (hne c hc), Function.update_of_ne hcb]
  have hpre : ∀ c ∈ pre, pages' c = pages c := by
    intro c hc
    exact hout c (List.mem_append_left _ hc) (hdis.2.2 c hc b (List.mem_cons_self ..))
  have hpost : ∀ c ∈ post, pages' c = pages c := by
    intro c hc
    refine hout c (List.mem_append_right _ (List.mem_cons_of_mem _ hc)) ?_
    intro heq
    exact (List.nodup_cons.mp hdis.2.1).1 (heq ▸ hc)
  have hl := ((lastOk_append ..).mp h.last).2.1
  rw [Nat.zero_add] at hl
  rw [numBits_append] at hbits
  have htail : (pre ++ (b :: [nblocks] ++ post)).getLast? =
      if (pages b).bmBitmapNext = none then some nblocks else tail := by
    obtain ⟨m, -, -, hseg⟩ := (seg_append ..).mp h.seg
    cases post with
    | nil =>
      have hnone : (pages b).bmBitmapNext = none := hseg
      rw [if_pos hnone]
      simp
    | cons c post =>
      rw [hseg.1, if_neg (Option.some_ne_none c), ← h.tail]
      simp [List.getLast?_append, List.getLast?_cons_cons]
  constructor
  · refine ChainInv.replace [] post [nblocks] h hpre hpost ?_ ?_ ?_ (Nat.le_succ _) htail ?_ ?_
      (Or.inr ?_)
    · intro m hm
      refine ⟨?_, ?_⟩
      · rw [hb, hnext]
      · rw [hn, hnext']
        exact hm
    · intro c hc
      exact Or.inr ⟨List.mem_singleton.mp hc, Nat.lt_succ_self _⟩
    · simp [hbn]
    · intro c hc
      rcases List.mem_cons.mp hc with rfl | hc
      · rw [hb]
        exact hok
      · rw [List.mem_singleton.mp hc, hn]
        exact hok'
    · refine ⟨?_, ?_, trivial⟩
      · rw [hb, hlast, hl]
        omega
      · rw [hn, hb, hlast', hl]
        omega
    · simp only [chainEntries_cons, chainEntries_nil, List.append_nil, numBits_append, hb, hn]
      omega
  · simp only [chainEntries_append, chainEntries_cons, chainEntries_congr hpre,
      chainEntries_congr hpost, hb, hn, List.append_assoc]

end

/-! ## Inserting words into a page -/

theorem isFillWord_pageBuffer {L : PageLayout} {page : BMBitmapPage} (h : PageOk L page) {i : Nat}
    (hi : i < L.wordsPerPage) :
    isFillWord (pageBuffer L page).hwords i = isFillWord page.hwords i := by
  show isFillWord (memcpy (fun _ => 0) page.hwords (bmCalcHWords page.bmHrlWordsUsed)) i = _
  rw [isFillWord_memcpy]
  split_ifs with hc
  · rfl
  · rw [h.clean i (le_of_calc_le hc) hi]
    simp [isFillWord]

theorem isFillWord_storeWords {L : PageLayout} {page : BMBitmapPage} {words : BMTIDBuffer}
    (hw : CleanFrom words.hwords L.wordsPerPage words.curword)
    (hp : CleanFrom page.hwords L.wordsPerPage words.curword) {i : Nat} (hi : i < L.wordsPerPage) :
    isFillWord (storeWords page words).hwords i = isFillWord words.hwords i := by
  show isFillWord (memcpy page.hwords words.hwords (bmCalcHWords words.curword)) i = _
  rw [isFillWord_memcpy]
  split_ifs with hc
  · rfl
  · rw [hw i (le_of_calc_le hc) hi, hp i (le_of_calc_le hc) hi]

/-- **Inserting words into a page.** What the page holds afterwards and what it did not hold are
together the old entries with the new ones inserted. -/
theorem insertIntoPage_spec {L : PageLayout} {page : BMBitmapPage} (h : PageOk L page)
    {newWords : BMTIDBuffer} (wordsLeft : BMTIDBuffer) {ins : Nat}
    (hins : ins ≤ page.bmHrlWordsUsed) (hnew : 0 < newWords.curword)
    (hnew64 : newWords.curword ≤ 64) (hnclean : CleanFrom newWords.hwords 64 newWords.curword) :
    let r := insertNewwords L (pageBuffer L page) ins newWords wordsLeft
    PageOk L (storeWords page r.1) ∧
    (storeWords page r.1).entries ++ r.2.entries =
      entriesFrom page.cwords page.hwords 0 ins ++ (newWords.entries ++
        entriesFrom page.cwords page.hwords ins (page.bmHrlWordsUsed - ins)) ∧
    r.2.curword = page.bmHrlWordsUsed + newWords.curword - L.wordsPerPage ∧
    (0 < r.2.curword → CleanFrom r.2.hwords 64 r.2.curword) := by
  have hused := h.used
  have hbuf : CleanFrom (pageBuffer L page).hwords L.wordsPerPage (pageBuffer L page).curword := by
    intro i hi hi'
    rw [isFillWord_pageBuffer h hi']
    exact h.clean i hi hi'
  have hnum : (pageBuffer L page).numCwords = L.wordsPerPage := rfl
  obtain ⟨e₁, e₂, e₃, e₄, e₅⟩ := insertNewwords_entries L wordsLeft hnum hused hins hnew hnew64 hbuf
    hnclean
  generalize insertNewwords L (pageBuffer L page) ins newWords wordsLeft = r at e₁ e₂ e₃ e₄ e₅ ⊢
  have hcur : (pageBuffer L page).curword = page.bmHrlWordsUsed := rfl
  rw [hcur] at e₄ e₅ e₁
  have hpclean : CleanFrom page.hwords L.wordsPerPage r.1.curword := by
    intro i hi hi'
    exact h.clean i (by omega) hi'
  have hstore : ∀ i < L.wordsPerPage, isFillWord (storeWords page r.1).hwords i =
      isFillWord r.1.hwords i := fun i hi => isFillWord_storeWords e₂ hpclean hi
  refine ⟨⟨?_, ?_⟩, ?_, e₅, e₃⟩
  · show r.1.curword ≤ L.wordsPerPage
    omega
  · intro i hi hi'
    rw [hstore i hi']
    exact e₂ i hi hi'
  · have hent : (storeWords page r.1).entries = r.1.entries := by
      apply entriesFrom_congr
      · intro j _
        rfl
      · intro j hj
        have hj' : j < r.1.curword := hj
        exact hstore _ (by omega)
    rw [hent, e₁]
    congr 1
    · apply entriesFrom_congr
      · intro j _
        rfl
      · intro j hj
        exact isFillWord_pageBuffer h (by omega)
    · congr 1
      apply entriesFrom_congr
      · intro j _
        rfl
      · intro j hj
        exact isFillWord_pageBuffer h (by omega)

/-- The buffer of new words without the first. -/
theorem entries_tail {T : Nat} {nb : BMTIDBuffer} {e : Entry} {rest : List Entry}
    (h : Filled T nb (e :: rest)) (hlen : rest.length < 63) :
    let nb' := { nb with
      hwords := Function.update nb.hwords 0 (nb.hwords 0 <<< 1)
      cwords := fun i => if i < nb.curword - 1 then nb.cwords (i + 1) else nb.cwords i
      curword := nb.curword - 1 }
    nb'.entries = rest ∧ nb'.curword = rest.length ∧ CleanFrom nb'.hwords 64 nb'.curword ∧
      (nb.cwords 0, isFillWord nb.hwords 0) = e := by
  intro nb'
  have hcur : nb.curword = rest.length + 1 := h.curword
  have hshift : ∀ i < 63, isFillWord nb'.hwords i = isFillWord nb.hwords (i + 1) := by
    intro i hi
    have h0 : i / 64 = 0 := by omega
    have h1 : (i + 1) / 64 = 0 := by omega
    have hm : i % 64 = i := by omega
    have hm1 : (i + 1) % 64 = i + 1 := by omega
    show isFillWord (Function.update nb.hwords 0 (nb.hwords 0 <<< 1)) i = _
    rw [isFillWord_update, if_pos h0, BitVec.getMsbD_shiftLeft, isFillWord_eq, h1, hm, hm1]
  have hall := h.entries
  rw [BMTIDBuffer.entries, hcur, entriesFrom_succ, List.cons.injEq] at hall
  refine ⟨?_, ?_, ?_, hall.1⟩
  · rw [← hall.2]
    show entriesFrom nb'.cwords nb'.hwords 0 (nb.curword - 1) = _
    rw [hcur, Nat.add_sub_cancel]
    apply entriesFrom_congr
    · intro j hj
      show (if 0 + j < nb.curword - 1 then nb.cwords (0 + j + 1) else nb.cwords (0 + j)) = _
      rw [if_pos (by omega)]
      congr 1
      omega
    · intro j hj
      rw [hshift _ (by omega)]
      congr 1
      omega
  · show nb.curword - 1 = rest.length
    omega
  · intro i hi hi'
    have hi₀ : nb.curword - 1 ≤ i := hi
    by_cases hlast : i < 63
    · rw [hshift i hlast]
      exact h.clean _ (by omega)
    · have h0 : i / 64 = 0 := by omega
      show isFillWord (Function.update nb.hwords 0 (nb.hwords 0 <<< 1)) i = false
      rw [isFillWord_update, if_pos h0, BitVec.getMsbD_shiftLeft]
      exact getMsbD_ge _ (by omega)

/-- The page when its word `w` has been replaced by the first of the new words, and what inserting
the others gives. -/
theorem splitPage_spec {L : PageLayout} {page : BMBitmapPage} (hok : PageOk L page) {w : Nat}
    (hw : w < page.bmHrlWordsUsed) (hfill : isFillWord page.hwords w = true) {T : Nat}
    {nb : BMTIDBuffer} {e : Entry} {rest : List Entry} (h : Filled T nb (e :: rest))
    (hrest : 0 < rest.length) (hlen : rest.length < 63) (wordsLeft : BMTIDBuffer) :
    let page₁ := { page with
      cwords := Function.update page.cwords w (nb.cwords 0)
      hwords := if !e.2 then Function.update page.hwords (w / 64)
          (page.hwords (w / 64) &&& ~~~(wordnoGetHeaderBit w))
        else page.hwords }
    let nb' := { nb with
      hwords := Function.update nb.hwords 0 (nb.hwords 0 <<< 1)
      cwords := fun i => if i < nb.curword - 1 then nb.cwords (i + 1) else nb.cwords i
      curword := nb.curword - 1 }
    let r := insertNewwords L (pageBuffer L page₁) (w + 1) nb' wordsLeft
    PageOk L (storeWords page₁ r.1) ∧
    (storeWords page₁ r.1).entries ++ r.2.entries =
      entriesFrom page.cwords page.hwords 0 w ++ ((e :: rest) ++
        entriesFrom page.cwords page.hwords (w + 1) (page.bmHrlWordsUsed - w - 1)) ∧
    r.2.curword = page.bmHrlWordsUsed + rest.length - L.wordsPerPage ∧
    (0 < r.2.curword → CleanFrom r.2.hwords 64 r.2.curword) := by
  intro page₁ nb' r
  obtain ⟨t₁, t₂, t₃, t₄⟩ := entries_tail h hlen
  have hc : ∀ i, i ≠ w → page₁.cwords i = page.cwords i := by
    intro i hi
    exact Function.update_of_ne hi _ _
  have hh : ∀ i, isFillWord page₁.hwords i =
      if i = w then e.2 else isFillWord page.hwords i := by
    intro i
    show isFillWord (if !e.2 then Function.update page.hwords (w / 64)
          (page.hwords (w / 64) &&& ~~~(wordnoGetHeaderBit w)) else page.hwords) i = _
    cases e.2 with
    | true =>
      rw [if_neg (by decide)]
      split_ifs with hi
      · rw [hi, hfill]
      · rfl
    | false =>
      rw [if_pos (by decide), isFillWord_clearBit]
      split_ifs with hi
      · rw [decide_eq_false (not_not_intro hi), Bool.and_false]
      · rw [decide_eq_true hi, Bool.and_true]
  have hh' : ∀ i, i ≠ w → isFillWord page₁.hwords i = isFillWord page.hwords i := by
    intro i hi
    rw [hh i, if_neg hi]
  have hok₁ : PageOk L page₁ := ⟨hok.used, cleanFrom_setWord hok hw hh'⟩
  have he : (page₁.cwords w, isFillWord page₁.hwords w) = e := by
    rw [hh w, if_pos rfl]
    show (Function.update page.cwords w (nb.cwords 0) w, e.2) = e
    rw [Function.update_self, ← t₄]
  have hnb : nb'.curword = rest.length := t₂
  obtain ⟨i₁, i₂, i₃, i₄⟩ := @insertIntoPage_spec L page₁ hok₁ nb' wordsLeft (w + 1) hw (by omega)
    (by omega) t₃
  refine ⟨i₁, ?_, ?_, i₄⟩
  · rw [i₂, t₁]
    have hbefore : entriesFrom page₁.cwords page₁.hwords 0 (w + 1) =
        entriesFrom page.cwords page.hwords 0 w ++ [e] := by
      apply entriesFrom_push
      · intro i hi
        exact hc i (by omega)
      · intro i hi
        exact hh' i (by omega)
      · exact he
    have hafter : entriesFrom page₁.cwords page₁.hwords (w + 1) (page₁.bmHrlWordsUsed - (w + 1)) =
        entriesFrom page.cwords page.hwords (w + 1) (page.bmHrlWordsUsed - w - 1) := by
      apply entriesFrom_congr
      · intro j _
        exact hc _ (by omega)
      · intro j _
        exact hh' _ (by omega)
    rw [hbefore, hafter, List.append_assoc]
    rfl
  · rw [i₃, hnb]

/-- Words inserted at the start of a page that has room for them. -/
theorem insertFront_spec {L : PageLayout} {page : BMBitmapPage} (hok : PageOk L page)
    {left : BMTIDBuffer} (wordsLeft : BMTIDBuffer) (h0 : 0 < left.curword)
    (hfit : left.curword ≤ L.wordsPerPage - page.bmHrlWordsUsed) (h64 : left.curword ≤ 64)
    (hclean : CleanFrom left.hwords 64 left.curword) :
    let page' := storeWords page (insertNewwords L (pageBuffer L page) 0 left wordsLeft).1
    PageOk L page' ∧ page'.entries = left.entries ++ page.entries := by
  intro page'
  obtain ⟨i₁, i₂, i₃, -⟩ := insertIntoPage_spec hok wordsLeft (Nat.zero_le _) h0 h64 hclean
  have hused := hok.used
  have hnil : (insertNewwords L (pageBuffer L page) 0 left wordsLeft).2.entries = [] := by
    rw [BMTIDBuffer.entries, i₃, show page.bmHrlWordsUsed + left.curword - L.wordsPerPage =
      0 by omega]
    rfl
  rw [hnil, List.append_nil, entriesFrom_zero, List.nil_append, Nat.sub_zero] at i₂
  exact ⟨i₁, i₂⟩

section

variable {L : PageLayout} {v : BmVector} {pre post : List Nat} {b w T : Nat} {nb : BMTIDBuffer}
  {e : Entry} {rest : List Entry}

/-- **Splitting a word of a page** replaces its entry by the new ones, wherever the words go. -/
theorem splitWordInpage_spec
    (h : ChainInv L v.pages v.nblocks v.lovItem.bmLovHead v.lovItem.bmLovTail (pre ++ b :: post))
    (hw : w < (v.pages b).bmHrlWordsUsed) (hfill : isFillWord (v.pages b).hwords w = true)
    (hnb : Filled T nb (e :: rest)) (hrest : 0 < rest.length) (hlen : rest.length ≤ 2)
    (hbits : numBits (e :: rest) = entryLen ((v.pages b).cwords w, true)) :
    ∃ v' bs', splitWordInpage L v b w nb (!e.2) = .ok v' ∧
      ChainInv L v'.pages v'.nblocks v'.lovItem.bmLovHead v'.lovItem.bmLovTail bs' ∧
      chainEntries v'.pages bs' = chainEntries v.pages pre ++
        ((entriesFrom (v.pages b).cwords (v.pages b).hwords 0 w ++ ((e :: rest) ++
          entriesFrom (v.pages b).cwords (v.pages b).hwords (w + 1)
            ((v.pages b).bmHrlWordsUsed - w - 1))) ++ chainEntries v.pages post) ∧
      v'.lovItem = { v.lovItem with bmLovTail := v'.lovItem.bmLovTail } := by
  have hwpp : 64 ≤ L.wordsPerPage := by
    have := L.pos
    show 64 ≤ 64 * L.bmNumOfHeaderWords
    omega
  have hok := h.page b (by simp)
  have hused := hok.used
  have hcur : nb.curword - 1 = rest.length := by
    rw [hnb.curword]
    rfl
  have hhead : (!e.2 && isFillWord nb.hwords 0) = false := by
    have hfirst := (entries_tail hnb (by omega)).2.2.2
    have he : isFillWord nb.hwords 0 = e.2 := by rw [← hfirst]
    rw [he, Bool.not_and_self]
  obtain ⟨s₁, s₂, s₃, s₄⟩ := splitPage_spec hok hw hfill hnb hrest (by omega)
    (bufExtend BMTIDBuffer.zero)
  have hall : numBits (entriesFrom (v.pages b).cwords (v.pages b).hwords 0 w ++ ((e :: rest) ++
      entriesFrom (v.pages b).cwords (v.pages b).hwords (w + 1)
        ((v.pages b).bmHrlWordsUsed - w - 1))) = numBits (v.pages b).entries := by
    rw [entries_around (v.pages b) hw, numBits_append, numBits_append, hbits, numBits_append,
      numBits_append, hfill]
    rfl
  simp only [splitWordInpage, hhead, Bool.false_eq_true, if_false]
  generalize insertNewwords L (pageBuffer L _) (w + 1) _ _ = r at s₁ s₂ s₃ s₄ ⊢
  generalize hpage : storeWords _ r.1 = page₂ at s₁ s₂ ⊢
  have hnext₂ : page₂.bmBitmapNext = (v.pages b).bmBitmapNext := by rw [← hpage]; rfl
  have hlast₂ : page₂.bmLastTidLocation = (v.pages b).bmLastTidLocation := by rw [← hpage]; rfl
  rw [hcur, getnumbits_eq, hnext₂, hlast₂, ← s₂]
  rw [← s₂] at hall
  by_cases hfits : rest.length ≤ L.wordsPerPage - (v.pages b).bmHrlWordsUsed
  · -- Nothing is left over.
    have hr0 : r.2.curword = 0 := by omega
    have hnil : r.2.entries = [] := by
      rw [BMTIDBuffer.entries, hr0]
      rfl
    rw [hnil, List.append_nil] at hall ⊢
    simp only [hfits, not_true_eq_false, false_and, if_false, if_true, hr0]
    have hok' : PageOk L { page₂ with
        bmBitmapNext := (v.pages b).bmBitmapNext
        bmLastTidLocation := (v.pages b).bmLastTidLocation -
          numBits (entriesFrom r.2.cwords r.2.hwords 0 0) } := ⟨s₁.used, s₁.clean⟩
    obtain ⟨hc, he⟩ := h.setPage hok' rfl rfl hall
    exact ⟨_, _, rfl, hc, he, rfl⟩
  · simp only [hfits, not_false_eq_true, true_and, if_false]
    have hr0 : 0 < r.2.curword := by omega
    rw [if_pos hr0]
    have hleft : numBits (entriesFrom r.2.cwords r.2.hwords 0 r.2.curword) =
      numBits r.2.entries := rfl
    rw [hleft]
    obtain ⟨m, -, -, hseg⟩ := (seg_append ..).mp h.seg
    cases hroom : nextFits L v (v.pages b) rest.length with
    | true =>
      -- The next page has room for the words left over.
      cases post with
      | nil =>
        rw [nextFits, show (v.pages b).bmBitmapNext = none from hseg] at hroom
        exact absurd hroom Bool.false_ne_true
      | cons nx post =>
        have hnx : (v.pages b).bmBitmapNext = some nx := hseg.1
        simp only [nextFits, hnx, decide_eq_true_eq] at hroom
        obtain ⟨f₁, f₂⟩ := insertFront_spec (h.page nx (by simp)) BMTIDBuffer.zero hr0 (by omega)
          (by omega) (s₄ hr0)
        have hok' : PageOk L { page₂ with
            bmBitmapNext := some nx
            bmLastTidLocation := (v.pages b).bmLastTidLocation - numBits r.2.entries } :=
          ⟨s₁.used, s₁.clean⟩
        obtain ⟨hc, he⟩ := h.moveNext hok' f₁ hnx.symm rfl rfl rfl hall f₂
        simp only [hnx, Bool.true_eq_false, if_false, Option.getD_some, reduceCtorEq]
        exact ⟨_, _, rfl, hc, he, rfl⟩
    | false =>
      -- A new page takes the words left over.
      have hnew : PageOk L { bitmapInitBitmappage with
          bmLastTidLocation := (v.pages b).bmLastTidLocation
          bmBitmapNext := (v.pages b).bmBitmapNext } := ⟨(pageOk_init L).used,
            (pageOk_init L).clean⟩
      obtain ⟨f₁, f₂⟩ := insertFront_spec hnew BMTIDBuffer.zero hr0
        (by show r.2.curword ≤ L.wordsPerPage - 0; omega) (by omega) (s₄ hr0)
      have f₃ : (storeWords { bitmapInitBitmappage with
            bmLastTidLocation := (v.pages b).bmLastTidLocation
            bmBitmapNext := (v.pages b).bmBitmapNext } (insertNewwords L (pageBuffer L
          { bitmapInitBitmappage with
            bmLastTidLocation := (v.pages b).bmLastTidLocation
            bmBitmapNext := (v.pages b).bmBitmapNext }) 0 r.2 BMTIDBuffer.zero).1).entries =
          r.2.entries := f₂.trans (List.append_nil _)
      have hok' : PageOk L { page₂ with
          bmBitmapNext := some v.nblocks
          bmLastTidLocation := (v.pages b).bmLastTidLocation - numBits r.2.entries } :=
        ⟨s₁.used, s₁.clean⟩
      obtain ⟨hc, he⟩ := h.moveNew hok' f₁ rfl rfl (by rw [f₃]) rfl (by rw [f₃]; exact hall)
      rw [f₃] at he
      simp only [if_true]
      refine ⟨_, _, rfl, ?_, he, ?_⟩
      · dsimp only
        convert hc using 1
        · split_ifs <;> rfl
        · split_ifs <;> rfl
      · split_ifs <;> rfl

end

/-! ## Setting the bit -/

theorem setBit_onesFill {word : BmHrlWord} {k : Nat} (hbit : getFillBit word = true)
    (hk : k < fillLength word * 64) : SetBit [(word, true)] [(word, true)] k := by
  refine ⟨rfl, ?_⟩
  intro p
  rw [Segments.bitAt_singleton, entryBit_fill, entryLen_fill, hbit, Bool.and_true]
  by_cases hp : p = k
  · rw [hp, decide_eq_true hk, Bool.true_or]
  · rw [decide_eq_false hp, Bool.or_false]

/-- The first of the words a fill word is split into is a fill word if the bit is not in the first
64 bits. -/
theorem splitEntries_cons (n loc : Nat) :
    ∃ e rest, splitEntries n loc = e :: rest ∧ rest.length ≤ 2 ∧ (!e.2) = decide (loc + 1 ≤ 64) ∧
      (rest = [] → e.2 = false) := by
  by_cases h64 : 64 ≤ loc
  · refine ⟨(bmMakeFillWord false (loc / 64), true),
      _, by rw [splitEntries, if_pos h64]; rfl, ?_, ?_,
      ?_⟩
    · split_ifs <;> simp
    · exact (decide_eq_false (by omega)).symm
    · intro hrest
      exact absurd hrest (List.cons_ne_nil _ _)
  · refine ⟨(1#64 <<< (loc % 64), false), _, by rw [splitEntries, if_neg h64]; rfl, ?_, ?_, ?_⟩
    · split_ifs <;> simp
    · exact (decide_eq_true (by omega)).symm
    · intro _
      rfl

section

variable {L : PageLayout} {v : BmVector} {b w k tidnum : Nat} (pre post : List Nat)

/-- What setting the bit of a tid does to the pages of a vector. -/
def SetInChain (L : PageLayout) (v : BmVector) (bs : List Nat) (tidnum : Nat)
    (r : Except BmError BmVector) : Prop :=
  ∃ v' bs', r = .ok v' ∧
    ChainInv L v'.pages v'.nblocks v'.lovItem.bmLovHead v'.lovItem.bmLovTail bs' ∧
    SetBit (chainEntries v.pages bs) (chainEntries v'.pages bs') (tidnum - 1) ∧
    v'.lovItem = { v.lovItem with bmLovTail := v'.lovItem.bmLovTail }

/-- A word of a page replaced by words that have one more bit set. -/
theorem setBit_chain (hw : w < (v.pages b).bmHrlWordsUsed) {es : List Entry}
    (hset : SetBit [((v.pages b).cwords w, isFillWord (v.pages b).hwords w)] es k)
    (hk : k < entryLen ((v.pages b).cwords w, isFillWord (v.pages b).hwords w)) :
    SetBit (chainEntries v.pages (pre ++ b :: post))
      (chainEntries v.pages pre ++
        ((entriesFrom (v.pages b).cwords (v.pages b).hwords 0 w ++ (es ++
          entriesFrom (v.pages b).cwords (v.pages b).hwords (w + 1)
            ((v.pages b).bmHrlWordsUsed - w - 1))) ++ chainEntries v.pages post))
      (numBits (chainEntries v.pages pre) +
        (numBits (entriesFrom (v.pages b).cwords (v.pages b).hwords 0 w) + k)) := by
  have h₁ := hset.frame (by simpa using hk) (entriesFrom (v.pages b).cwords (v.pages b).hwords 0 w)
    (entriesFrom (v.pages b).cwords (v.pages b).hwords (w + 1) ((v.pages b).bmHrlWordsUsed - w - 1))
  rw [chainEntries_append, chainEntries_cons, entries_around _ hw]
  apply h₁.frame
  simp only [Segments.total_append, Segments.total_cons]
  omega

/-- A word of a page replaced by another one. -/
theorem setInChain_setWord
    (h : ChainInv L v.pages v.nblocks v.lovItem.bmLovHead v.lovItem.bmLovTail (pre ++ b :: post))
    (hw : w < (v.pages b).bmHrlWordsUsed) {page' : BMBitmapPage} {e : Entry}
    (hused : page'.bmHrlWordsUsed = (v.pages b).bmHrlWordsUsed)
    (hnext : page'.bmBitmapNext = (v.pages b).bmBitmapNext)
    (hlast : page'.bmLastTidLocation = (v.pages b).bmLastTidLocation)
    (hc : ∀ i, i ≠ w → page'.cwords i = (v.pages b).cwords i)
    (hh : ∀ i, i ≠ w → isFillWord page'.hwords i = isFillWord (v.pages b).hwords i)
    (he : (page'.cwords w, isFillWord page'.hwords w) = e)
    (hset : SetBit [((v.pages b).cwords w, isFillWord (v.pages b).hwords w)] [e] k)
    (hk : k < entryLen ((v.pages b).cwords w, isFillWord (v.pages b).hwords w))
    (hpos : numBits (chainEntries v.pages pre) +
      (numBits (entriesFrom (v.pages b).cwords (v.pages b).hwords 0 w) + k) = tidnum - 1) :
    SetInChain L v (pre ++ b :: post) tidnum
      (.ok { v with pages := Function.update v.pages b page' }) := by
  have hok := h.page b (by simp)
  have hentries := entries_setWord hw hused hc hh he
  have hok' : PageOk L page' := by
    refine ⟨hused ▸ hok.used, ?_⟩
    rw [hused]
    exact cleanFrom_setWord hok hw hh
  have hlen : numBits [e] =
      numBits [((v.pages b).cwords w, isFillWord (v.pages b).hwords w)] := hset.1
  have hbits : numBits page'.entries = numBits (v.pages b).entries := by
    rw [hentries, entries_around _ hw, numBits_append, numBits_append, numBits_append,
      numBits_append, hlen]
  obtain ⟨hchain, hall⟩ := h.setPage hok' hnext hlast hbits
  refine ⟨_, _, rfl, hchain, ?_, rfl⟩
  rw [hall, hentries, ← hpos]
  exact setBit_chain pre post hw hset hk

/-- **Setting a bit in a page.** -/
theorem updatesetbitInpage_spec
    (h : ChainInv L v.pages v.nblocks v.lovItem.bmLovHead v.lovItem.bmLovTail (pre ++ b :: post))
    (hlt : numBits (chainEntries v.pages pre) < tidnum)
    (hle : tidnum ≤ numBits (chainEntries v.pages pre) + numBits (v.pages b).entries) :
    SetInChain L v (pre ++ b :: post) tidnum
      (updatesetbitInpage L v tidnum b (numBits (chainEntries v.pages pre) + 1)) := by
  have hmod := numBits_mod (chainEntries v.pages pre)
  generalize hn : numBits (chainEntries v.pages pre) = n at hlt hle hmod ⊢
  have hok := h.page b (by simp)
  have hlow :
      n + 1 + numBits (entriesFrom (v.pages b).cwords (v.pages b).hwords 0 0) ≤ tidnum := hlt
  have hhigh : tidnum < n + 1 + numBits (entriesFrom (v.pages b).cwords (v.pages b).hwords 0
      (0 + (v.pages b).bmHrlWordsUsed)) := by
    rw [Nat.zero_add]
    change tidnum < n + 1 + numBits (v.pages b).entries
    omega
  obtain ⟨w, f₁, f₂, f₃, f₄⟩ :=
    findWord_spec (Nat.succ_pos n) (v.pages b).bmHrlWordsUsed 0 hlow hhigh
  rw [Nat.zero_add] at f₂
  have hsucc : numBits (entriesFrom (v.pages b).cwords (v.pages b).hwords 0 (w + 1)) =
      numBits (entriesFrom (v.pages b).cwords (v.pages b).hwords 0 w) +
        entryLen ((v.pages b).cwords w, isFillWord (v.pages b).hwords w) := by
    rw [entriesFrom_add, numBits_append, Nat.zero_add, entriesFrom_succ]
    simp
  have hmodw := numBits_mod (entriesFrom (v.pages b).cwords (v.pages b).hwords 0 w)
  rw [hsucc] at f₁ f₄
  generalize hA : numBits (entriesFrom (v.pages b).cwords (v.pages b).hwords 0 w) = A
    at f₁ f₃ f₄ hmodw
  rw [updatesetbitInpage]
  dsimp only
  rw [show numBits (entriesFrom (v.pages b).cwords (v.pages b).hwords 0 0) = 0 from rfl] at f₁
  rw [f₁]
  dsimp only
  have hpos : ∀ k, n + (A + k) = tidnum - 1 → numBits (chainEntries v.pages pre) +
      (numBits (entriesFrom (v.pages b).cwords (v.pages b).hwords 0 w) + k) = tidnum - 1 := by
    intro k hk
    rw [hn, hA, hk]
  have hk : tidnum - 1 - n - A <
      entryLen ((v.pages b).cwords w, isFillWord (v.pages b).hwords w) := by
    omega
  cases hfill : isFillWord (v.pages b).hwords w with
  | false =>
    -- A literal word.
    rw [if_pos rfl]
    rw [hfill, entryLen_literal] at f₄
    have hkeq : tidnum - 1 - n - A = (tidnum - 1) % 64 := by omega
    refine setInChain_setWord pre post h f₂ rfl rfl rfl ?_ (fun _ _ => rfl) rfl ?_ hk
      (hpos _ (by omega))
    · intro i hi
      exact Function.update_of_ne hi _ _
    · rw [hkeq, hfill]
      dsimp only
      rw [Function.update_self]
      exact setBit_literal _ (Nat.mod_lt _ (by decide))
  | true =>
    rw [if_neg (by decide)]
    rw [hfill, entryLen_fill] at f₄ hk
    have hT : n + 1 + (A + entryLen ((v.pages b).cwords w, true)) -
        fillLength ((v.pages b).cwords w) * 64 = n + A + 1 := by
      rw [entryLen_fill]
      omega
    cases hbit : getFillBit ((v.pages b).cwords w) with
    | true =>
      -- A fill word of ones has the bit already.
      rw [if_pos rfl]
      refine ⟨v, _, rfl, h, ?_, rfl⟩
      have hset : SetBit [((v.pages b).cwords w, isFillWord (v.pages b).hwords w)]
          [((v.pages b).cwords w, isFillWord (v.pages b).hwords w)] (tidnum - 1 - n - A) := by
        rw [hfill]
        exact setBit_onesFill hbit hk
      have hchain := setBit_chain pre post f₂ hset (by rw [hfill, entryLen_fill]; exact hk)
      rw [← entries_around _ f₂, ← chainEntries_cons, ← chainEntries_append,
        hpos _ (by omega)] at hchain
      exact hchain
    | false =>
      rw [if_neg (by decide), hT]
      have hloc : tidnum - (n + A + 1) < fillLength ((v.pages b).cwords w) * 64 := by omega
      have hset := setBit_splitEntries hbit rfl hloc
      have hnb : Filled (n + A) (updatesetbitInword ((v.pages b).cwords w) (tidnum - (n + A + 1))
          (n + A + 1) (bufExtend BMTIDBuffer.zero)) _ := updatesetbitInword_spec hloc
      obtain ⟨e, rest, hsplit, hlen, hlit, hsingle⟩ := splitEntries_cons
        (fillLength ((v.pages b).cwords w)) (tidnum - (n + A + 1))
      rw [hsplit] at hset hnb
      generalize updatesetbitInword _ _ _ _ = nb at hnb ⊢
      rw [← hlit]
      rw [← hfill] at hset
      have hk' : tidnum - (n + A + 1) <
          entryLen ((v.pages b).cwords w, isFillWord (v.pages b).hwords w) := by
        rw [hfill, entryLen_fill]
        exact hloc
      have hfirst := (entries_tail hnb (by omega)).2.2.2
      have hcur : nb.curword = rest.length + 1 := hnb.curword
      by_cases hone : rest = []
      · -- A fill word of length one.
        subst hone
        have he2 : e.2 = false := hsingle rfl
        have hheader : isFillWord nb.hwords 0 = false := by
          rw [← he2, ← hfirst]
        have hclear := isFillWord_clearBit (v.pages b).hwords w
        rw [if_pos (by rw [hcur]; rfl), hheader, if_neg Bool.false_ne_true]
        refine setInChain_setWord pre post h f₂ rfl rfl rfl ?_ ?_ ?_ hset hk' (hpos _ (by omega))
        · intro i hi
          exact Function.update_of_ne hi _ _
        · intro i hi
          dsimp only
          rw [hclear, decide_eq_true hi, Bool.and_true]
        · dsimp only
          rw [hclear, decide_eq_false (not_not_intro rfl), Bool.and_false, Function.update_self,
            ← he2, ← hfirst]
      · have hpos' : 0 < rest.length := List.length_pos_iff.mpr hone
        rw [if_neg (by omega)]
        have hbits : numBits (e :: rest) = entryLen ((v.pages b).cwords w, true) := by
          have ht : numBits (e :: rest) =
            numBits [((v.pages b).cwords w, isFillWord (v.pages b).hwords w)] := hset.1
          rw [ht, hfill]
          simp
        obtain ⟨v', bs', g₁, g₂, g₃, g₄⟩ := splitWordInpage_spec h f₂ hfill hnb hpos' hlen hbits
        refine ⟨v', bs', g₁, g₂, ?_, g₄⟩
        rw [g₃, ← hpos _ (show n + (A + (tidnum - (n + A + 1))) = tidnum - 1 by omega)]
        exact setBit_chain pre post f₂ hset hk'

end

end Hdb.Bitmap
