import Hdb.Bitmap.Building
import Hdb.Bitmap.InPage
import Hdb.Lib.Run

/-!
# Insertion is set insertion

`VecInv` holds of a vector between two insertions. Every insertion keeps it and adds the tid to
those in the vector, in whichever of the places the bit is: the last word, the last complete word,
a page, or after them all. One case is an exception: a tid that is in the vector already, in a last
complete word that is a run of ones longer than one word (`inOnesRun`). The code takes such a word
for a run of zeros, and the other tids in it are lost.
-/

namespace Hdb.Bitmap

/-! ## The invariant -/

/-- What holds of a vector between two insertions, when `bs` are the blocks of its pages. -/
structure VecInv (L : PageLayout) (v : BmVector) (bs : List Nat) : Prop where
  chain : ChainInv L v.pages v.nblocks v.lovItem.bmLovHead v.lovItem.bmLovTail bs
  header : v.lovItem.lovWordsHeader = 0 ∨ v.lovItem.lovWordsHeader = 2
  unset : v.lovItem.bmLastCompword = literalAllOne → numBits (chainEntries v.pages bs) = 0
  fill : bmLastCompwordIsFill v.lovItem = true → 0 < fillLength v.lovItem.bmLastCompword
  complete : v.lovItem.bmLastTidLocation =
    numBits (chainEntries v.pages bs) + numBits (compwordEntries v.lovItem)
  location : v.lovItem.bmLastTidLocation = v.lovItem.bmLastSetbit - v.lovItem.bmLastSetbit % 64
  word : ∀ i, v.lovItem.bmLastWord.getLsbD i = true → i < v.lovItem.bmLastSetbit % 64
  bound : v.lovItem.bmLastSetbit < 2 ^ 63

/-- The entries of the vector. -/
theorem VecInv.entries {L : PageLayout} {v : BmVector} {bs : List Nat} (h : VecInv L v bs) :
    vectorEntries v = chainEntries v.pages bs ++
      (compwordEntries v.lovItem ++ [(v.lovItem.bmLastWord, false)]) := by
  rw [vectorEntries, h.chain.pagesEntries]

/-- The vector has one more tid. -/
def Inserted (v v' : BmVector) (tidnum : Nat) : Prop :=
  ∀ t, vectorHas v' t = (vectorHas v t || decide (t = tidnum))

theorem inserted_of_bits {v v' : BmVector} {tidnum : Nat} (hpos : 1 ≤ tidnum)
    (h : ∀ p, bitAt (vectorEntries v') p = (bitAt (vectorEntries v) p || decide (p = tidnum - 1))) :
    Inserted v v' tidnum := by
  intro t
  rw [vectorHas, vectorHas, h]
  by_cases ht : 0 < t
  · rw [decide_eq_true ht, Bool.true_and, Bool.true_and]
    congr 1
    exact decide_eq_decide.mpr (by omega)
  · rw [decide_eq_false ht, Bool.false_and, Bool.false_and, Bool.false_or]
    exact (decide_eq_false (by omega)).symm

theorem isFill_of_header {lov : BMLOVItem} (h : lov.lovWordsHeader = 0 ∨ lov.lovWordsHeader = 2) :
    bmLastCompwordIsFill lov = decide (2 ≤ lov.lovWordsHeader) := by
  rcases h with h | h
  · rw [bmLastCompwordIsFill, h]
    rfl
  · rw [bmLastCompwordIsFill, h]
    rfl

theorem isFill_of_if {lov : BMLOVItem} {f : Bool} (h : lov.lovWordsHeader = if f then 2 else 0) :
    bmLastCompwordIsFill lov = f := by
  rw [bmLastCompwordIsFill, h]
  cases f <;> rfl

/-! ## Writing the last words -/

/-- The last words of a buffer after `T` bits. -/
structure LastInv (T : Nat) (buf : BMTIDBuffer) : Prop where
  complete : buf.lastTid - buf.lastTid % 64 = T + numBits (flat buf)
  unset : buf.lastCompword = literalAllOne → buf.curword = 0 ∧ T = 0
  fill : buf.isLastCompwordFill = true → 0 < fillLength buf.lastCompword
  word : ∀ i, buf.lastWord.getLsbD i = true → i < buf.lastTid % 64

theorem compwordEntries_of_lastWords {lov : BMLOVItem} {buf : BMTIDBuffer} (h : LastWords lov buf) :
    compwordEntries lov = bufComp buf := by
  rw [compwordEntries, bufComp, h.compword, isFill_of_if h.header]

/-- A vector to which a buffer has been written. -/
theorem vecInv_of_written {L : PageLayout} {v v' : BmVector} {bs bs' : List Nat} {buf : BMTIDBuffer}
    (hchain : ChainInv L v'.pages v'.nblocks v'.lovItem.bmLovHead v'.lovItem.bmLovTail bs')
    (hentries : chainEntries v'.pages bs' = chainEntries v.pages bs ++ buf.entries)
    (hwords : LastWords v'.lovItem buf) (h : LastInv (numBits (chainEntries v.pages bs)) buf)
    (hbound : buf.lastTid < 2 ^ 63) :
    VecInv L v' bs' ∧
      vectorEntries v' = chainEntries v.pages bs ++ (flat buf ++ [(buf.lastWord, false)]) := by
  have hcomp := compwordEntries_of_lastWords hwords
  refine ⟨⟨hchain, ?_, ?_, ?_, ?_, ?_, ?_, ?_⟩, ?_⟩
  · rw [hwords.header]
    cases buf.isLastCompwordFill
    · exact Or.inl rfl
    · exact Or.inr rfl
  · intro hunset
    rw [hwords.compword] at hunset
    obtain ⟨hcur, hT⟩ := h.unset hunset
    rw [hentries, numBits_append, hT, BMTIDBuffer.entries, hcur]
    rfl
  · rw [isFill_of_if hwords.header, hwords.compword]
    exact h.fill
  · rw [hwords.location, h.complete, hcomp, hentries, flat, numBits_append, numBits_append,
      Nat.add_assoc]
  · rw [hwords.location, hwords.setbit]
  · rw [hwords.word, hwords.setbit]
    exact h.word
  · rw [hwords.setbit]
    exact hbound
  · rw [vectorEntries, hchain.pagesEntries, hcomp, hentries, hwords.word, flat, List.append_assoc,
      List.append_assoc]

section

variable {L : PageLayout} {v : BmVector} {bs : List Nat} {tidnum : Nat}

/-! ## A bit that is not after the last set one -/

/-- What an insertion does. -/
def InsertOk (L : PageLayout) (v : BmVector) (tidnum : Nat) (r : Except BmError BmVector) : Prop :=
  ∃ v' bs', r = .ok v' ∧ VecInv L v' bs' ∧ Inserted v v' tidnum

/-- The entries with one more bit set. -/
theorem inserted_of_setBit {v' : BmVector} (hpos : 1 ≤ tidnum)
    (h : SetBit (vectorEntries v) (vectorEntries v') (tidnum - 1)) : Inserted v v' tidnum :=
  inserted_of_bits hpos h.2

/-- The bit is in the last word. -/
theorem insertOk_lastWord (h : VecInv L v bs) (hlt : v.lovItem.bmLastTidLocation < tidnum)
    (hle : tidnum ≤ v.lovItem.bmLastSetbit) :
    InsertOk L v tidnum (.ok { v with lovItem := { v.lovItem with
      bmLastWord := v.lovItem.bmLastWord ||| 1#64 <<< ((tidnum - 1) % 64) } }) := by
  have hloc := h.location
  have hcomplete := h.complete
  have hmod : (tidnum - 1) % 64 < 64 := Nat.mod_lt _ (by decide)
  have hinv : VecInv L { v with lovItem := { v.lovItem with
      bmLastWord := v.lovItem.bmLastWord ||| 1#64 <<< ((tidnum - 1) % 64) } } bs := by
    refine ⟨h.chain, h.header, h.unset, h.fill, h.complete, h.location, ?_, h.bound⟩
    intro i hi
    dsimp only at hi ⊢
    rw [getLsbD_or_bit _ hmod, Bool.or_eq_true, decide_eq_true_eq] at hi
    rcases hi with hi | hi
    · exact h.word i hi
    · omega
  refine ⟨_, bs, rfl, hinv, inserted_of_setBit (by omega) ?_⟩
  have hset := ((setBit_literal v.lovItem.bmLastWord hmod).frame (by simpa using hmod)
    (compwordEntries v.lovItem) []).frame (by simpa using hmod) (chainEntries v.pages bs) []
  have hpos : Segments.total entryLen (chainEntries v.pages bs) +
      (Segments.total entryLen (compwordEntries v.lovItem) + (tidnum - 1) % 64) = tidnum - 1 := by
    change numBits (chainEntries v.pages bs) + (numBits (compwordEntries v.lovItem) + _) = _
    omega
  rw [List.append_nil, List.append_nil, List.append_nil, List.append_nil, hpos] at hset
  rw [h.entries, hinv.entries]
  exact hset

/-- The last complete word, when it is set. -/
theorem compwordEntries_of_set {lov : BMLOVItem} {word : BmHrlWord} {f : Bool}
    (hword : lov.bmLastCompword = word) (hset : word ≠ literalAllOne)
    (hfill : bmLastCompwordIsFill lov = f) : compwordEntries lov = [(word, f)] := by
  rw [compwordEntries, hword, if_neg hset, hfill]

/-- The last complete word as a literal, with a bit set. -/
theorem setLastCompword_spec (tidnum : Nat) {lov : BMLOVItem}
    (hset : lov.bmLastCompword ≠ literalAllOne)
    (hone : bmLastCompwordIsFill lov = true → fillLength lov.bmLastCompword = 1) :
    SetBit (compwordEntries lov) (compwordEntries (setLastCompword lov tidnum))
      ((tidnum - 1) % 64) ∧
    (setLastCompword lov tidnum).bmLastCompword ≠ literalAllOne ∧
    ((setLastCompword lov tidnum).lovWordsHeader = 0 ∨
      (setLastCompword lov tidnum).lovWordsHeader = 2) ∧
    (bmLastCompwordIsFill (setLastCompword lov tidnum) = true →
      0 < fillLength (setLastCompword lov tidnum).bmLastCompword) := by
  have hmod : (tidnum - 1) % 64 < 64 := Nat.mod_lt _ (by decide)
  have hlit : SameBits (compwordEntries lov) [(if bmLastCompwordIsFill lov then
      (if getFillBit lov.bmLastCompword then literalAllOne else 0) else lov.bmLastCompword,
        false)] := by
    rw [compwordEntries_of_set rfl hset rfl]
    cases hfill : bmLastCompwordIsFill lov with
    | true => exact sameBits_literalOf (hone hfill)
    | false => exact Segments.SameBits.refl _
  have hbit := hlit.setBit (setBit_literal _ hmod)
  simp only [setLastCompword]
  generalize (if bmLastCompwordIsFill lov then
      (if getFillBit lov.bmLastCompword then literalAllOne else 0) else lov.bmLastCompword) |||
    1#64 <<< ((tidnum - 1) % 64) = compword at hbit ⊢
  by_cases hall : compword = literalAllOne
  · rw [if_pos hall]
    have hne : bmMakeFillWord true 1 ≠ literalAllOne := make_ne_literalAllOne true (by decide)
    refine ⟨?_, hne, Or.inr rfl, ?_⟩
    · have hcomp : compwordEntries { lov with
          lovWordsHeader := 2, bmLastCompword := bmMakeFillWord true 1 } =
          [(bmMakeFillWord true 1, true)] := compwordEntries_of_set rfl hne (isFill_of_if rfl)
      rw [hcomp]
      rw [hall] at hbit
      exact hbit.sameBits sameBits_allOne
    · intro _
      dsimp only
      rw [fillLength_make true (by decide)]
      decide
  · rw [if_neg hall]
    refine ⟨?_, hall, Or.inl rfl, ?_⟩
    · have hcomp : compwordEntries { lov with lovWordsHeader := 0, bmLastCompword := compword } =
          [(compword, false)] := compwordEntries_of_set rfl hall (isFill_of_if rfl)
      rw [hcomp]
      exact hbit
    · intro hfill
      exact absurd hfill (by rw [isFill_of_if (f := false) rfl]; decide)

/-- The bit is in the last complete word, which stays one word. -/
theorem insertOk_lastCompword (h : VecInv L v bs) (hset : v.lovItem.bmLastCompword ≠ literalAllOne)
    (hone : bmLastCompwordIsFill v.lovItem = true → fillLength v.lovItem.bmLastCompword = 1)
    (hlt : numBits (chainEntries v.pages bs) < tidnum)
    (hle : tidnum ≤ v.lovItem.bmLastTidLocation) :
    InsertOk L v tidnum (.ok { v with lovItem := setLastCompword v.lovItem tidnum }) := by
  obtain ⟨s₁, s₂, s₃, s₄⟩ := setLastCompword_spec tidnum hset hone
  have hcomplete := h.complete
  have hmod := numBits_mod (chainEntries v.pages bs)
  have hlen : numBits (compwordEntries v.lovItem) = 64 := by
    rw [compwordEntries_of_set rfl hset rfl]
    simp only [Segments.total_cons, Segments.total_nil]
    cases hfill : bmLastCompwordIsFill v.lovItem with
    | true => rw [entryLen_fill, hone hfill]
    | false => rw [entryLen_literal]
  have hlen' : numBits (compwordEntries (setLastCompword v.lovItem tidnum)) =
      numBits (compwordEntries v.lovItem) := s₁.1
  -- The other fields of the item are unchanged.
  have hlov : setLastCompword v.lovItem tidnum = { v.lovItem with
      bmLastCompword := (setLastCompword v.lovItem tidnum).bmLastCompword
      lovWordsHeader := (setLastCompword v.lovItem tidnum).lovWordsHeader } := by
    simp only [setLastCompword]
    split_ifs <;> rfl
  generalize setLastCompword v.lovItem tidnum = lov at s₁ s₂ s₃ s₄ hlen' hlov ⊢
  have hinv : VecInv L { v with lovItem := lov } bs := by
    refine ⟨?_, s₃, fun hunset => absurd hunset s₂, s₄, ?_, ?_, ?_, ?_⟩
    · rw [hlov]
      exact h.chain
    · dsimp only
      rw [hlen', hlov]
      exact h.complete
    · rw [hlov]
      exact h.location
    · rw [hlov]
      exact h.word
    · rw [hlov]
      exact h.bound
  refine ⟨_, bs, rfl, hinv, inserted_of_setBit (by omega) ?_⟩
  have hk : (tidnum - 1) % 64 < Segments.total entryLen (compwordEntries v.lovItem) := by
    change _ < numBits (compwordEntries v.lovItem)
    omega
  have hframe := s₁.frame hk (chainEntries v.pages bs) [(v.lovItem.bmLastWord, false)]
  have hpos : Segments.total entryLen (chainEntries v.pages bs) + (tidnum - 1) % 64 =
      tidnum - 1 := by
    change numBits (chainEntries v.pages bs) + _ = _
    omega
  rw [hpos] at hframe
  have hword : lov.bmLastWord = v.lovItem.bmLastWord := by rw [hlov]
  rw [h.entries, hinv.entries]
  dsimp only
  rw [hword]
  exact hframe

theorem bit_ne_literalAllOne {k : Nat} (hk : k < 64) :
    (1#64 <<< k : BmHrlWord) ≠ literalAllOne := by
  intro heq
  have hbit := getLsbD_or_bit 0#64 hk ((k + 1) % 64)
  rw [BitVec.zero_or, heq, getLsbD_literalAllOne, decide_eq_true (Nat.mod_lt _ (by decide)),
    BitVec.getLsbD_zero, Bool.false_or, decide_eq_false (by omega)] at hbit
  exact absurd hbit (by decide)

/-- The last of the words a fill word is split into can be the last complete word. -/
theorem splitEntries_concat {n : Nat} (loc : Nat) (hn : n < 2 ^ 63) :
    ∃ es e, splitEntries n loc = es ++ [e] ∧ es.length ≤ 2 ∧ e.1 ≠ literalAllOne ∧
      (e.2 = true → 0 < fillLength e.1) := by
  have hmax : maxFillLength = 2 ^ 63 - 1 := rfl
  have hlen : (if 64 ≤ loc then [(bmMakeFillWord false (loc / 64), true)]
      else ([] : List Entry)).length ≤ 1 := by
    split_ifs <;> simp
  by_cases hrest : loc / 64 + 1 < n
  · refine ⟨_, (bmMakeFillWord false (n - loc / 64 - 1), true),
      by rw [splitEntries, if_pos hrest, List.append_cons], ?_, ?_, ?_⟩
    · rw [List.length_append]
      exact Nat.succ_le_succ hlen
    · exact make_ne_literalAllOne false (by omega)
    · intro _
      rw [fillLength_make false (by omega)]
      omega
  · refine ⟨_, (1#64 <<< (loc % 64), false), by rw [splitEntries, if_neg hrest],
      hlen.trans (by decide), bit_ne_literalAllOne (Nat.mod_lt _ (by decide)), ?_⟩
    intro hfill
    exact absurd hfill Bool.false_ne_true

theorem Filled.last {T : Nat} {buf : BMTIDBuffer} {es : List Entry} {e : Entry}
    (h : Filled T buf (es ++ [e])) :
    entriesFrom buf.cwords buf.hwords 0 (buf.curword - 1) = es ∧
      (buf.cwords (buf.curword - 1), isFillWord buf.hwords (buf.curword - 1)) = e := by
  have hcur : buf.curword = es.length + 1 := by
    rw [h.curword, List.length_append]
    rfl
  have hall := h.entries
  rw [BMTIDBuffer.entries, hcur, entriesFrom_add, Nat.zero_add, entriesFrom_succ,
    entriesFrom_zero] at hall
  obtain ⟨h₁, h₂⟩ := List.append_inj' hall rfl
  rw [hcur, Nat.add_sub_cancel]
  exact ⟨h₁, List.singleton_inj.mp h₂⟩

/-- The words a fill word is split into have as many bits. -/
theorem numBits_splitEntries {n loc : Nat} (hn : n < 2 ^ 63) (hloc : loc < n * 64) :
    numBits (splitEntries n loc) = n * 64 := by
  have hlen : fillLength (bmMakeFillWord false n) = n := fillLength_make false hn
  have hsplit := setBit_splitEntries (getFillBit_make false hn) hlen hloc
  rw [numBits, hsplit.1]
  simp [hlen]

/-- The last complete word, a fill word, is split; the code takes it for one of zeros. -/
theorem splitCompword_spec (h : VecInv L v bs) (hset : v.lovItem.bmLastCompword ≠ literalAllOne)
    (hfill : bmLastCompwordIsFill v.lovItem = true)
    (hlt : numBits (chainEntries v.pages bs) < tidnum)
    (hle : tidnum ≤ v.lovItem.bmLastTidLocation) :
    let buf := updatesetbitInword v.lovItem.bmLastCompword
      (tidnum - numBits (chainEntries v.pages bs) - 1) (numBits (chainEntries v.pages bs) + 1)
      (bufExtend BMTIDBuffer.zero)
    ∃ v' bs', bitmapWriteNewBitmapwords L v { buf with
        lastCompword := buf.cwords (buf.curword - 1)
        isLastCompwordFill := isFillWord buf.hwords (buf.curword - 1)
        curword := buf.curword - 1
        lastWord := v.lovItem.bmLastWord
        lastTid := v.lovItem.bmLastSetbit } = .ok v' ∧ VecInv L v' bs' ∧
      vectorEntries v' = chainEntries v.pages bs ++
        (splitEntries (fillLength v.lovItem.bmLastCompword)
          (tidnum - numBits (chainEntries v.pages bs) - 1) ++ [(v.lovItem.bmLastWord, false)]) := by
  intro buf
  have hcomp := compwordEntries_of_set rfl hset hfill
  have hcomplete := h.complete
  rw [hcomp] at hcomplete
  simp only [Segments.total_cons, Segments.total_nil, entryLen_fill, Nat.add_zero] at hcomplete
  have hloc : tidnum - numBits (chainEntries v.pages bs) - 1 <
      fillLength v.lovItem.bmLastCompword * 64 := by omega
  have hbuf : Filled (numBits (chainEntries v.pages bs)) buf _ := updatesetbitInword_spec hloc
  have hbits := numBits_splitEntries (fillLength_lt v.lovItem.bmLastCompword) hloc
  obtain ⟨es, e, hes, hlen, hne, hpos⟩ := splitEntries_concat
    (tidnum - numBits (chainEntries v.pages bs) - 1) (fillLength_lt v.lovItem.bmLastCompword)
  rw [hes] at hbuf hbits ⊢
  obtain ⟨l₁, l₂⟩ := hbuf.last
  have hcur : buf.curword = es.length + 1 := by
    rw [hbuf.curword, List.length_append]
    rfl
  generalize hnew : { buf with
      lastCompword := buf.cwords (buf.curword - 1)
      isLastCompwordFill := isFillWord buf.hwords (buf.curword - 1)
      curword := buf.curword - 1
      lastWord := v.lovItem.bmLastWord
      lastTid := v.lovItem.bmLastSetbit } = buf'
  have hcomp' : buf'.lastCompword = e.1 := by rw [← hnew, ← l₂]
  have hfill' : buf'.isLastCompwordFill = e.2 := by rw [← hnew, ← l₂]
  have hcur' : buf'.curword = es.length := by
    rw [← hnew]
    dsimp only
    omega
  have hentries : buf'.entries = es := by
    rw [← l₁, ← hnew]
    rfl
  have htid : buf'.lastTid = v.lovItem.bmLastSetbit := by rw [← hnew]
  have hword : buf'.lastWord = v.lovItem.bmLastWord := by rw [← hnew]
  have hflat : flat buf' = es ++ [e] := by
    rw [flat_of_set (by rw [hcomp']; exact hne), hentries, hcomp', hfill']
  have htids : LastTidsOk (numBits (chainEntries v.pages bs)) buf' := by
    intro i hi
    rw [hcur'] at hi
    have := hbuf.lastTids i (by omega)
    rw [← hnew]
    exact this
  have hlast : LastInv (numBits (chainEntries v.pages bs)) buf' := by
    refine ⟨?_, ?_, ?_, ?_⟩
    · rw [htid, ← h.location, hflat, hbits, hcomplete]
    · intro hunset
      rw [hcomp'] at hunset
      exact absurd hunset hne
    · rw [hfill', hcomp']
      exact hpos
    · rw [hword, htid]
      exact h.word
  have hpage : buf'.curword ≤ L.wordsPerPage := by
    have := L.pos
    show buf'.curword ≤ 64 * L.bmNumOfHeaderWords
    omega
  obtain ⟨v', bs', w₁, w₂, w₃, w₄⟩ := bitmapWriteNewBitmapwords_spec L h.chain hpage htids
  obtain ⟨hinv, hall⟩ := vecInv_of_written w₂ w₃ w₄ hlast (htid ▸ h.bound)
  refine ⟨v', bs', w₁, hinv, ?_⟩
  rw [hall, hflat, hword]

/-- The bit is in the last complete word, a fill word of zeros. -/
theorem insertOk_splitCompword (h : VecInv L v bs) (hset : v.lovItem.bmLastCompword ≠ literalAllOne)
    (hfill : bmLastCompwordIsFill v.lovItem = true)
    (hbit : getFillBit v.lovItem.bmLastCompword = false)
    (hlt : numBits (chainEntries v.pages bs) < tidnum)
    (hle : tidnum ≤ v.lovItem.bmLastTidLocation) :
    let buf := updatesetbitInword v.lovItem.bmLastCompword
      (tidnum - numBits (chainEntries v.pages bs) - 1) (numBits (chainEntries v.pages bs) + 1)
      (bufExtend BMTIDBuffer.zero)
    InsertOk L v tidnum (bitmapWriteNewBitmapwords L v { buf with
      lastCompword := buf.cwords (buf.curword - 1)
      isLastCompwordFill := isFillWord buf.hwords (buf.curword - 1)
      curword := buf.curword - 1
      lastWord := v.lovItem.bmLastWord
      lastTid := v.lovItem.bmLastSetbit }) := by
  intro buf
  have hcomp := compwordEntries_of_set rfl hset hfill
  have hcomplete := h.complete
  rw [hcomp] at hcomplete
  simp only [Segments.total_cons, Segments.total_nil, entryLen_fill, Nat.add_zero] at hcomplete
  have hloc : tidnum - numBits (chainEntries v.pages bs) - 1 <
      fillLength v.lovItem.bmLastCompword * 64 := by omega
  obtain ⟨v', bs', w₁, hinv, hall⟩ := splitCompword_spec h hset hfill hlt hle
  refine ⟨v', bs', w₁, hinv, inserted_of_setBit (by omega) ?_⟩
  have hframe := (setBit_splitEntries hbit rfl hloc).frame (by simpa using hloc)
    (chainEntries v.pages bs) [(v.lovItem.bmLastWord, false)]
  have hindex : Segments.total entryLen (chainEntries v.pages bs) +
      (tidnum - numBits (chainEntries v.pages bs) - 1) = tidnum - 1 := by
    change numBits (chainEntries v.pages bs) + _ = _
    omega
  rw [hindex] at hframe
  rw [h.entries, hcomp, hall]
  exact hframe

/-- The bit is in a page. -/
theorem insertOk_page (h : VecInv L v bs) (hpos : 1 ≤ tidnum)
    (hle : tidnum ≤ numBits (chainEntries v.pages bs)) :
    InsertOk L v tidnum
      (match findbitmappage v tidnum (v.nblocks + 1) v.lovItem.bmLovHead 1 with
      | .error e => .error e
      | .ok (blkno, firstTidNumber) => updatesetbitInpage L v tidnum blkno firstTidNumber) := by
  obtain ⟨pre, b, post, rfl, f₁, f₂, f₃⟩ := findbitmappage_of_seg h.chain.seg h.chain.last
    (show bs.length ≤ v.nblocks + 1 from h.chain.length_le.trans (Nat.le_succ _)) hpos
    (by rw [Nat.zero_add]; exact hle)
  simp only [Nat.zero_add] at f₁ f₂ f₃
  rw [f₁]
  obtain ⟨v', bs', g₁, g₂, g₃, g₄⟩ := updatesetbitInpage_spec pre post h.chain f₂ f₃
  have hbits : numBits (chainEntries v'.pages bs') =
      numBits (chainEntries v.pages (pre ++ b :: post)) := g₃.1
  have hinv : VecInv L v' bs' := by
    refine ⟨g₂, ?_, ?_, ?_, ?_, ?_, ?_, ?_⟩
    · rw [g₄]
      exact h.header
    · rw [hbits, g₄]
      exact h.unset
    · rw [g₄]
      exact h.fill
    · rw [hbits, g₄]
      exact h.complete
    · rw [g₄]
      exact h.location
    · rw [g₄]
      exact h.word
    · rw [g₄]
      exact h.bound
  refine ⟨v', bs', g₁, hinv, inserted_of_setBit hpos ?_⟩
  have hframe :=
    g₃.frame (show tidnum - 1 < numBits (chainEntries v.pages (pre ++ b :: post)) by omega)
    [] (compwordEntries v.lovItem ++ [(v.lovItem.bmLastWord, false)])
  rw [List.nil_append, List.nil_append, Segments.total_nil, Nat.zero_add] at hframe
  rw [h.entries, hinv.entries, g₄]
  exact hframe

/-- A tid in the last complete word, when that is a run of ones of more than one word: the tid is
in the vector already. -/
def inOnesRun (lov : BMLOVItem) (tidnum : Nat) : Bool :=
  2 ≤ lov.lovWordsHeader && getFillBit lov.bmLastCompword && 1 < fillLength lov.bmLastCompword &&
    compwordTidLocation lov < tidnum && tidnum ≤ lov.bmLastTidLocation

theorem VecInv.compwordTidLocation (h : VecInv L v bs)
    (hset : v.lovItem.bmLastCompword ≠ literalAllOne) :
    compwordTidLocation v.lovItem = numBits (chainEntries v.pages bs) := by
  have hcomplete := h.complete
  have hloc := h.location
  have hbound := h.bound
  rw [compwordEntries_of_set rfl hset rfl] at hcomplete
  simp only [Segments.total_cons, Segments.total_nil, Nat.add_zero] at hcomplete
  have hlen : (if bmLastCompwordIsFill v.lovItem then fillLength v.lovItem.bmLastCompword * 64
      else 64) = entryLen (v.lovItem.bmLastCompword, bmLastCompwordIsFill v.lovItem) := rfl
  rw [Bitmap.compwordTidLocation, hlen]
  omega

/-- **Setting a bit that is not after the last set one.** -/
theorem updatesetbit_spec (h : VecInv L v bs) (hpos : 1 ≤ tidnum)
    (hle : tidnum ≤ v.lovItem.bmLastSetbit) (hrun : inOnesRun v.lovItem tidnum = false) :
    InsertOk L v tidnum (updatesetbit L v tidnum) := by
  simp only [updatesetbit]
  by_cases hword : v.lovItem.bmLastTidLocation < tidnum
  · rw [if_pos (Or.inl hword), if_pos hword]
    exact insertOk_lastWord h hword hle
  · have hcomplete := h.complete
    have hset : v.lovItem.bmLastCompword ≠ literalAllOne := by
      intro hunset
      have h0 := h.unset hunset
      have hnil : numBits [] = 0 := rfl
      rw [compwordEntries, if_pos hunset, hnil] at hcomplete
      omega
    have hfill := isFill_of_header h.header
    have htid := h.compwordTidLocation hset
    rw [inOnesRun, htid, decide_eq_true (show tidnum ≤ v.lovItem.bmLastTidLocation by omega),
      Bool.and_true] at hrun
    rw [htid]
    by_cases hcomp : numBits (chainEntries v.pages bs) < tidnum
    · by_cases hshort : v.lovItem.lovWordsHeader = 0 ∨ fillLength v.lovItem.bmLastCompword = 1
      · rw [if_pos (Or.inr ⟨hcomp, hshort⟩), if_neg hword]
        refine insertOk_lastCompword h hset ?_ hcomp (by omega)
        intro hf
        rcases hshort with h0 | h1
        · rw [hfill, h0] at hf
          exact absurd hf (by decide)
        · exact h1
      · rw [not_or] at hshort
        have h2 : v.lovItem.lovWordsHeader = 2 := h.header.resolve_left hshort.1
        have hf : bmLastCompwordIsFill v.lovItem = true := by
          rw [hfill, h2]
          rfl
        have hlong : 1 < fillLength v.lovItem.bmLastCompword := by
          have := h.fill hf
          omega
        have hbit : getFillBit v.lovItem.bmLastCompword = false := by
          simpa [h2, hlong, hcomp] using hrun
        rw [if_neg (by omega), if_pos ⟨hcomp, h2.ge⟩]
        exact insertOk_splitCompword h hset hf hbit hcomp (by omega)
    · rw [if_neg (by omega), if_neg (by omega)]
      exact insertOk_page h hpos (by omega)

/-! ## A bit after the last set one -/

/-- The buffer an insertion starts with. -/
theorem flat_lovBuffer (h : VecInv L v bs) :
    flat (lovBuffer v.lovItem) = compwordEntries v.lovItem := by
  rw [compwordEntries, isFill_of_header h.header]
  rfl

theorem bufCore_lovBuffer (h : VecInv L v bs) :
    BufCore (numBits (chainEntries v.pages bs)) (lovBuffer v.lovItem) := by
  refine ⟨?_, ?_, ⟨fun _ => rfl, le_rfl⟩, ?_, ?_, ?_⟩
  · intro i hi
    exact absurd hi (Nat.not_lt_zero i)
  · intro i _
    show isFillWord (fun _ => 0) i = false
    simp [isFillWord]
  · have hcomplete := h.complete
    show v.lovItem.bmLastSetbit - v.lovItem.bmLastSetbit % 64 = _
    rw [← h.location, hcomplete, flat_lovBuffer h]
  · intro hunset
    exact ⟨rfl, h.unset hunset⟩
  · intro hfill
    apply h.fill
    rw [isFill_of_header h.header]
    exact hfill

theorem building_lovBuffer (h : VecInv L v bs) : Building L v bs (lovBuffer v.lovItem) :=
  ⟨h.chain, bufCore_lovBuffer h, Nat.zero_le _, le_rfl⟩

theorem builtBit_lovBuffer (h : VecInv L v bs) (p : Nat) :
    builtBit v bs (lovBuffer v.lovItem) p = bitAt (vectorEntries v) p := by
  rw [builtBit, built, flat_lovBuffer h, h.entries, List.append_assoc]
  rfl

/-- The buffer of an insertion has room for the tid, so that nothing is written to the pages. -/
theorem lovBuffer_addTid (h : VecInv L v bs) (hlt : v.lovItem.bmLastSetbit < tidnum)
    (htid : tidnum < 2 ^ 63) :
    ∃ buf, bufAddTidWithFill L v (lovBuffer v.lovItem) tidnum = .ok (v, buf) ∧ Building L v bs buf ∧
      (∀ i, buf.lastWord.getLsbD i = true → i < buf.lastTid % 64) ∧ buf.lastTid = tidnum ∧
      ∀ p, builtBit v bs buf p = (bitAt (vectorEntries v) p || decide (p = tidnum - 1)) := by
  have hL : 64 ≤ L.wordsPerPage := Nat.le_mul_of_pos_right 64 L.pos
  have hcur : (lovBuffer v.lovItem).curword = 0 := rfl
  obtain ⟨v', bs', buf, b₁, b₂, b₃, b₄, b₅, -, b₆⟩ :=
    (building_lovBuffer h).addTid h.word hlt htid
  obtain ⟨rfl, rfl, -⟩ := b₆ (by omega)
  refine ⟨buf, b₁, b₂, b₃, b₄, fun p => ?_⟩
  rw [b₅, builtBit_lovBuffer h]

/-- **Inserting a bit.** -/
theorem insertsetbit_spec (h : VecInv L v bs) (hpos : 1 ≤ tidnum) (htid : tidnum < 2 ^ 63)
    (hrun : inOnesRun v.lovItem tidnum = false) :
    InsertOk L v tidnum (insertsetbit L v tidnum) := by
  rw [insertsetbit]
  by_cases hle : tidnum ≤ v.lovItem.bmLastSetbit
  · rw [if_pos hle]
    exact updatesetbit_spec h hpos hle hrun
  · rw [if_neg hle]
    obtain ⟨buf, b₁, b₂, b₃, b₄, b₅⟩ := lovBuffer_addTid h (not_le.mp hle) htid
    rw [b₁]
    dsimp only
    -- The entries of the buffer end up in the pages, and its last words in the LOV item.
    have hlast : LastInv (numBits (chainEntries v.pages bs)) buf :=
      ⟨b₂.core.complete, b₂.core.unset, b₂.core.fill, b₃⟩
    have hwrite : ∀ v' bs', ChainInv L v'.pages v'.nblocks v'.lovItem.bmLovHead v'.lovItem.bmLovTail
        bs' → chainEntries v'.pages bs' = chainEntries v.pages bs ++ buf.entries →
        LastWords v'.lovItem buf → VecInv L v' bs' ∧ Inserted v v' tidnum := by
      intro v' bs' w₁ w₂ w₃
      obtain ⟨hinv, hall⟩ := vecInv_of_written w₁ w₂ w₃ hlast (by omega)
      refine ⟨hinv, inserted_of_bits hpos fun p => ?_⟩
      rw [hall, ← List.append_assoc]
      exact b₅ p
    by_cases hnum : buf.numCwords = 0
    · rw [if_pos hnum]
      have hcur0 : buf.curword = 0 := b₂.core.room.1 hnum
      have hnil : buf.entries = [] := by
        rw [BMTIDBuffer.entries, hcur0]
        rfl
      obtain ⟨hinv, hins⟩ := hwrite { v with lovItem := { v.lovItem with
          bmLastCompword := buf.lastCompword
          bmLastWord := buf.lastWord
          lovWordsHeader := if buf.isLastCompwordFill then 2 else 0
          bmLastSetbit := tidnum
          bmLastTidLocation := tidnum - tidnum % 64 } } bs h.chain
        (by rw [hnil, List.append_nil]) ⟨rfl, rfl, rfl, b₄.symm, by rw [b₄]⟩
      exact ⟨_, bs, rfl, hinv, hins⟩
    · rw [if_neg hnum]
      obtain ⟨v', bs', w₁, w₂, w₃, w₄⟩ := bitmapWriteNewBitmapwords_spec L h.chain
        b₂.cur b₂.core.lastTids
      obtain ⟨hinv, hins⟩ := hwrite v' bs' w₂ w₃ w₄
      exact ⟨v', bs', w₁, hinv, hins⟩

end

/-! ## Runs -/

/-- A vector with a new LOV item. The blocks that exist already belong to other vectors. -/
def newVector (currTidNumber : Nat) (pages : Nat → BMBitmapPage) (nblocks : Nat) : BmVector :=
  ⟨bitmapFormitem currTidNumber, pages, nblocks⟩

/-- A new item stands for zeros up to a multiple of 64. -/
theorem bitmapFormitem_cases {currTidNumber : Nat} (htid : currTidNumber < 2 ^ 63) :
    bitmapFormitem currTidNumber = ⟨none, none, literalAllOne, literalAllZero, 0, 0, 0⟩ ∨
    ∃ n, 0 < n ∧ n * 64 < 2 ^ 63 ∧ bitmapFormitem currTidNumber =
      ⟨none, none, bmMakeFillWord false n, literalAllZero, n * 64, n * 64, 2⟩ := by
  have hmax : maxFillLength = 2 ^ 63 - 1 := rfl
  rw [bitmapFormitem]
  split_ifs with hsmall
  · exact Or.inl rfl
  · refine Or.inr ⟨(currTidNumber - 1) / 64, by omega, by omega, ?_⟩
    dsimp only
    rw [if_neg (by omega)]

theorem vecInv_new (L : PageLayout) {currTidNumber : Nat} (htid : currTidNumber < 2 ^ 63)
    (pages : Nat → BMBitmapPage) (nblocks : Nat) :
    VecInv L (newVector currTidNumber pages nblocks) [] := by
  rw [newVector]
  rcases bitmapFormitem_cases htid with hitem | ⟨n, hn, hbound, hitem⟩
  · rw [hitem]
    refine ⟨chainInv_nil L pages nblocks, Or.inl rfl, fun _ => rfl, ?_, ?_, rfl, ?_, ?_⟩
    · intro hfill
      dsimp only at hfill
      exact absurd hfill (by decide)
    · rw [compwordEntries, if_pos rfl]
      rfl
    · intro i hi
      simp at hi
    · dsimp only
      decide
  · rw [hitem]
    have hmax : maxFillLength = 2 ^ 63 - 1 := rfl
    have hlen : fillLength (bmMakeFillWord false n) = n := fillLength_make false (by omega)
    have hcomp : compwordEntries ⟨none, none, bmMakeFillWord false n, literalAllZero,
      n * 64, n * 64, 2⟩ = [(bmMakeFillWord false n, true)] :=
      compwordEntries_of_set rfl (make_ne_literalAllOne false (by omega)) (isFill_of_if rfl)
    refine ⟨chainInv_nil L pages nblocks, Or.inr rfl, fun _ => rfl, ?_, ?_, ?_, ?_, hbound⟩
    · intro _
      dsimp only
      rw [hlen]
      exact hn
    · dsimp only
      rw [hcomp]
      simp [hlen]
    · dsimp only
      omega
    · intro i hi
      simp at hi

theorem not_vectorHas_new (L : PageLayout) {currTidNumber : Nat} (htid : currTidNumber < 2 ^ 63)
    (pages : Nat → BMBitmapPage) (nblocks t : Nat) :
    vectorHas (newVector currTidNumber pages nblocks) t = false := by
  have hzero : ∀ p, bitAt (vectorEntries (newVector currTidNumber pages nblocks)) p = false := by
    intro p
    rw [(vecInv_new L htid pages nblocks).entries, newVector, chainEntries_nil, List.nil_append]
    rcases bitmapFormitem_cases htid with hitem | ⟨n, hn, hbound, hitem⟩
    · rw [hitem, compwordEntries, if_pos rfl]
      exact bitAt_zeroLiteral p
    · have hmax : maxFillLength = 2 ^ 63 - 1 := rfl
      rw [hitem, compwordEntries_of_set rfl (make_ne_literalAllOne false (by omega))
        (isFill_of_if (f := true) rfl)]
      have hword := Segments.bitAt_append_of_false
        [(bmMakeFillWord false n, true)] bitAt_zeroLiteral p
      exact hword.trans (bitAt_zeroFill (by omega) p)
  rw [vectorHas, hzero, Bool.and_false]

/-- One insertion, as a step of a system. -/
def insertStep (L : PageLayout) (v : BmVector) (tidnum : Nat) : Option BmVector :=
  (insertsetbit L v tidnum).toOption

/-- The insertions from a vector that has the tids `S`. -/
theorem run_insert {L : PageLayout} {v : BmVector} {bs : List Nat} (h : VecInv L v bs)
    {tids : List Nat} (hpos : ∀ t ∈ tids, 1 ≤ t ∧ t < 2 ^ 63)
    (hrun : Along (insertStep L) (fun v t => inOnesRun v.lovItem t = false) v tids) :
    ∃ v', run (insertStep L) v tids = some v' ∧
      ∀ t, vectorHas v' t = (vectorHas v t || decide (t ∈ tids)) := by
  induction tids generalizing v bs with
  | nil => exact ⟨v, rfl, fun t => by simp⟩
  | cons tidnum tids ih =>
    obtain ⟨h₁, h₂⟩ := hpos tidnum (List.mem_cons_self ..)
    obtain ⟨v₁, bs₁, e₁, e₂, e₃⟩ := insertsetbit_spec h h₁ h₂ hrun.1
    have hstep : insertStep L v tidnum = some v₁ := by
      rw [insertStep, e₁]
      rfl
    obtain ⟨v', f₁, f₂⟩ := ih e₂ (fun t ht => hpos t (List.mem_cons_of_mem _ ht)) (hrun.2 v₁ hstep)
    refine ⟨v', ?_, ?_⟩
    · rw [run_cons, hstep]
      exact f₁
    · intro t
      rw [f₂, e₃, Bool.or_assoc, ← Bool.decide_or]
      congr 1
      exact decide_eq_decide.mpr List.mem_cons.symm

/-- **Insertion is set insertion.** Every sequence of insertions into a new vector, none of them of
a tid that is in the run of ones at the end already, leaves exactly the inserted tids. -/
theorem vectorHas_iff_inserted (L : PageLayout) {currTidNumber : Nat}
    (htid : currTidNumber < 2 ^ 63) (pages : Nat → BMBitmapPage) (nblocks : Nat) {tids : List Nat}
    (hpos : ∀ t ∈ tids, 1 ≤ t ∧ t < 2 ^ 63)
    (hrun : Along (insertStep L) (fun v t => inOnesRun v.lovItem t = false)
      (newVector currTidNumber pages nblocks) tids) :
    ∃ v, run (insertStep L) (newVector currTidNumber pages nblocks) tids = some v ∧
      ∀ t, vectorHas v t = true ↔ t ∈ tids := by
  obtain ⟨v, h₁, h₂⟩ := run_insert (vecInv_new L htid pages nblocks) hpos hrun
  refine ⟨v, h₁, ?_⟩
  intro t
  rw [h₂, not_vectorHas_new L htid, Bool.false_or, decide_eq_true_eq]

/-- Tids out of order and twice, with a run of ones in between. -/
theorem vectorHas_iff_inserted_outOfOrder :
    let tids := [200, 3, 70, 3, 201] ++ List.range' 1 64
    (∀ t ∈ tids, 1 ≤ t ∧ t < 2 ^ 63) ∧
    ∃ v, run (insertStep ⟨1, by decide⟩) (newVector 200 (fun _ => bitmapInitBitmappage) 0) tids =
        some v ∧ ∀ t, vectorHas v t = true ↔ t ∈ tids := by
  have hpos : ∀ t ∈ [200, 3, 70, 3, 201] ++ List.range' 1 64, 1 ≤ t ∧ t < 2 ^ 63 := by decide
  exact ⟨hpos, vectorHas_iff_inserted ⟨1, by decide⟩ (by decide) _ 0 hpos (by decide +kernel)⟩

/-- **A run of ones loses its tids.** After the tids 1 to 128 the last complete word is a run of two
words of ones. Inserting the tid 1 again leaves 1 alone. -/
theorem onesRun_lost :
    let tids := List.range' 1 128 ++ [1]
    (∀ t ∈ tids, 1 ≤ t ∧ t < 2 ^ 63) ∧ 2 ∈ tids ∧
    ∃ v, run (insertStep ⟨1, by decide⟩) (newVector 1 (fun _ => bitmapInitBitmappage) 0) tids =
        some v ∧ vectorHas v 2 = false := by
  refine ⟨by decide +kernel, by decide +kernel, ?_⟩
  have hlost : (run (insertStep ⟨1, by decide⟩) (newVector 1 (fun _ => bitmapInitBitmappage) 0)
      (List.range' 1 128 ++ [1])).map (fun v => vectorHas v 2) = some false := by decide +kernel
  exact Option.map_eq_some_iff.mp hlost

end Hdb.Bitmap
