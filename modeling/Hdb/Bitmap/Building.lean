import Hdb.Bitmap.Chain

/-!
# Building words for a vector

A buffer collects the words of a vector. When it has no room for another header bit its words are
written to the pages, and the buffer goes on behind them. Neither changes the bits that the pages
and the buffer stand for together (`builtBit`), except for the one that is set (`Building.addTid`).
With room for the words that are added nothing is written (`Kept`).
-/

namespace Hdb.Bitmap

/-! ## The words of a buffer and its vector -/

/-- What holds of a vector and a buffer with words for it. -/
structure Building (L : PageLayout) (v : BmVector) (bs : List Nat) (buf : BMTIDBuffer) : Prop where
  chain : ChainInv L v.pages v.nblocks v.lovItem.bmLovHead v.lovItem.bmLovTail bs
  core : BufCore (numBits (chainEntries v.pages bs)) buf
  cur : buf.curword ≤ L.wordsPerPage
  setbit : v.lovItem.bmLastSetbit ≤ buf.lastTid

/-- The complete words of a vector and of a buffer for it. -/
def built (v : BmVector) (bs : List Nat) (buf : BMTIDBuffer) : List Entry :=
  chainEntries v.pages bs ++ flat buf

/-- The bits of a vector and of a buffer for it, the last word included. -/
def builtBit (v : BmVector) (bs : List Nat) (buf : BMTIDBuffer) (p : Nat) : Bool :=
  bitAt (built v bs buf ++ [(buf.lastWord, false)]) p

/-- With room for `n` more words nothing is written to the vector, and no more words are added. -/
def Kept (L : PageLayout) (n : Nat) (v : BmVector) (bs : List Nat) (buf : BMTIDBuffer)
    (v' : BmVector) (bs' : List Nat) (buf' : BMTIDBuffer) : Prop :=
  buf.curword + n ≤ L.wordsPerPage → v' = v ∧ bs' = bs ∧ buf'.curword ≤ buf.curword + n

theorem Kept.trans {L : PageLayout} {m n : Nat} {v v' v'' : BmVector} {bs bs' bs'' : List Nat}
    {buf buf' buf'' : BMTIDBuffer} (h : Kept L m v bs buf v' bs' buf')
    (h' : Kept L n v' bs' buf' v'' bs'' buf'') : Kept L (m + n) v bs buf v'' bs'' buf'' := by
  intro hroom
  obtain ⟨rfl, rfl, hcur⟩ := h (by omega)
  obtain ⟨rfl, rfl, hcur'⟩ := h' (by omega)
  exact ⟨rfl, rfl, by omega⟩

theorem Kept.mono {L : PageLayout} {m n : Nat} {v v' : BmVector} {bs bs' : List Nat}
    {buf buf' : BMTIDBuffer} (h : Kept L m v bs buf v' bs' buf') (hmn : m ≤ n) :
    Kept L n v bs buf v' bs' buf' := by
  intro hroom
  obtain ⟨hv, hbs, hcur⟩ := h (by omega)
  exact ⟨hv, hbs, by omega⟩

/-- The buffers agree on what they keep when their words are written. -/
structure SameLast (buf buf' : BMTIDBuffer) : Prop where
  compword : buf'.lastCompword = buf.lastCompword
  fill : buf'.isLastCompwordFill = buf.isLastCompwordFill
  word : buf'.lastWord = buf.lastWord
  tid : buf'.lastTid = buf.lastTid

theorem SameLast.refl (buf : BMTIDBuffer) : SameLast buf buf := ⟨rfl, rfl, rfl, rfl⟩

theorem SameLast.trans {buf buf' buf'' : BMTIDBuffer} (h : SameLast buf buf')
    (h' : SameLast buf' buf'') : SameLast buf buf'' :=
  ⟨h'.compword.trans h.compword, h'.fill.trans h.fill, h'.word.trans h.word, h'.tid.trans h.tid⟩

theorem SameLast.symm {buf buf' : BMTIDBuffer} (h : SameLast buf buf') : SameLast buf' buf :=
  ⟨h.compword.symm, h.fill.symm, h.word.symm, h.tid.symm⟩

theorem bufExtend_last (buf : BMTIDBuffer) : SameLast buf (bufExtend buf) := by
  rw [bufExtend]
  split_ifs <;> exact ⟨rfl, rfl, rfl, rfl⟩

theorem bitmapFreeTidbuf_last (buf : BMTIDBuffer) : SameLast buf (bitmapFreeTidbuf buf) :=
  ⟨rfl, rfl, rfl, rfl⟩

theorem bufExtend_curword (buf : BMTIDBuffer) : (bufExtend buf).curword = buf.curword := by
  rw [bufExtend]
  split_ifs <;> rfl

theorem ne_literalAllOne {w : BmHrlWord} {k : Nat} (hk : k < 64)
    (h : ∀ i, w.getLsbD i = true → i < k) : w ≠ literalAllOne := by
  intro hone
  have hbit := h 63 (by rw [hone, getLsbD_literalAllOne]; decide)
  omega

theorem bufEnsureHeadSpace_of_lt {L : PageLayout} (v : BmVector) {buf : BMTIDBuffer}
    (h : buf.curword < L.wordsPerPage) : bufEnsureHeadSpace L v buf = .ok (v, buf) := by
  rw [bufEnsureHeadSpace, if_neg (by omega)]

section

variable {L : PageLayout} {v : BmVector} {bs : List Nat} {buf : BMTIDBuffer}

theorem BufCore.set_of_curword {T : Nat} (h : BufCore T buf) (hcur : 0 < buf.curword) :
    buf.lastCompword ≠ literalAllOne := by
  intro hu
  have := (h.unset hu).1
  omega

theorem SameLast.flat_emptied {buf' : BMTIDBuffer} (h : SameLast buf buf')
    (hcur : buf'.curword = 0) : flat buf' = bufComp buf := by
  rw [flat, BMTIDBuffer.entries, hcur, entriesFrom_zero, List.nil_append, bufComp, bufComp,
    h.compword, h.fill]

/-- A buffer whose words have gone to the vector. -/
theorem BufCore.emptied {T T' : Nat} {buf' : BMTIDBuffer} (h : BufCore T buf)
    (hset : buf.lastCompword ≠ literalAllOne ∨ T' = 0) (hT : T' = T + numBits buf.entries)
    (hlast : SameLast buf buf') (hcur : buf'.curword = 0) (hclean : BufClean buf') :
    BufCore T' buf' := by
  have hflat := hlast.flat_emptied hcur
  refine ⟨fun i hi => ?_, hclean, ⟨fun _ => hcur, by omega⟩, ?_, ?_, ?_⟩
  · omega
  · rw [hlast.tid, h.complete, hflat, flat, numBits_append, hT, Nat.add_assoc]
  · intro hu
    rw [hlast.compword] at hu
    exact ⟨hcur, hset.resolve_left fun hne => hne hu⟩
  · rw [hlast.fill, hlast.compword]
    exact h.fill

theorem bufClean_zero (hwords : ∀ i, buf.hwords i = 0) : BufClean buf := by
  intro i _
  rw [isFillWord, hwords]
  simp

/-- The words of the buffer are written when it has no room for another header bit. -/
theorem Building.ensure (h : Building L v bs buf) :
    ∃ v' bs' buf', bufEnsureHeadSpace L v buf = .ok (v', buf') ∧ Building L v' bs' buf' ∧
      built v' bs' buf' = built v bs buf ∧ SameLast buf buf' ∧ buf'.curword < L.wordsPerPage ∧
      (buf.curword < L.wordsPerPage → v' = v ∧ bs' = bs ∧ buf' = buf) := by
  by_cases hlt : buf.curword < L.wordsPerPage
  · exact ⟨v, bs, buf, bufEnsureHeadSpace_of_lt v hlt, h, rfl, SameLast.refl buf, hlt,
      fun _ => ⟨rfl, rfl, rfl⟩⟩
  · have hpos : 0 < L.wordsPerPage := Nat.mul_pos (by decide) L.pos
    have hnum : buf.numCwords ≠ 0 := by
      intro h0
      have := h.core.room.1 h0
      omega
    obtain ⟨v', bs', w₁, w₂, w₃, w₄⟩ := bitmapWriteNewBitmapwords_spec L h.chain h.cur
      h.core.lastTids
    have hset := h.core.set_of_curword (by omega)
    have hlast : SameLast buf (bufExtend (bitmapFreeTidbuf buf)) :=
      (bitmapFreeTidbuf_last buf).trans (bufExtend_last (bitmapFreeTidbuf buf))
    have hcur : (bufExtend (bitmapFreeTidbuf buf)).curword = 0 :=
      bufExtend_curword (bitmapFreeTidbuf buf)
    have hbits : numBits (chainEntries v'.pages bs') =
        numBits (chainEntries v.pages bs) + numBits buf.entries := by
      rw [w₃, numBits_append]
    have hcore := h.core.emptied (.inl hset) hbits hlast hcur (bufClean_zero fun i => rfl)
    refine ⟨v', bs', bufExtend (bitmapFreeTidbuf buf), ?_, ⟨w₂, hcore, by omega, ?_⟩, ?_, hlast,
      by omega, fun hlt' => absurd hlt' hlt⟩
    · rw [bufEnsureHeadSpace, if_pos (not_lt.mp hlt), if_neg hnum, w₁]
    · rw [w₄.setbit, hlast.tid]
    · rw [built, built, w₃, hlast.flat_emptied hcur, flat, List.append_assoc]

/-- **Merging the last word** into a vector and its buffer. -/
theorem Building.merge {f : Bool} (h : Building L v bs buf) (hw : buf.lastWord ≠ literalAllOne)
    (hf : f = true → 0 < fillLength buf.lastWord)
    (hbound : numBits (built v bs buf) + entryLen (buf.lastWord, f) < 2 ^ 63) :
    ∃ v' bs' buf', bufEnsureHeadSpace L v buf = .ok (v', buf') ∧
      Building L v' bs' (mergewords buf' f) ∧
      SameBits (built v bs buf ++ [(buf.lastWord, f)]) (built v' bs' (mergewords buf' f)) ∧
      (mergewords buf' f).lastWord = 0 ∧
      (mergewords buf' f).lastTid = numBits (built v bs buf) + entryLen (buf.lastWord, f) ∧
      v'.lovItem.bmLastSetbit ≤ buf.lastTid ∧ Kept L 1 v bs buf v' bs' (mergewords buf' f) := by
  obtain ⟨v', bs', buf', e₁, e₂, e₃, e₄, e₅, e₆⟩ := h.ensure
  rw [← e₃, ← e₄.word] at hbound ⊢
  rw [← e₄.word] at hw hf
  have hcomplete := e₂.core.complete
  rw [built, numBits_append] at hbound
  obtain ⟨m₁, m₂, m₃, m₄, m₅, -⟩ := mergewords_spec e₂.core hw hf (by omega)
  have hlen : 64 ≤ entryLen (buf'.lastWord, f) := by
    cases f with
    | false => rw [entryLen_literal]
    | true =>
      have := hf rfl
      rw [entryLen_fill]
      omega
  refine ⟨v', bs', buf', e₁, ⟨e₂.chain, m₁, by omega, ?_⟩, ?_, m₃, ?_, ?_, fun hroom => ?_⟩
  · have := e₂.setbit
    omega
  · have hframe := m₂.frame (chainEntries v'.pages bs') []
    rw [List.append_nil, List.append_nil] at hframe
    rw [built, built, List.append_assoc]
    exact hframe
  · rw [m₄, built, numBits_append]
  · rw [← e₄.tid]
    exact e₂.setbit
  · obtain ⟨hv, hbs, rfl⟩ := e₆ hroom
    exact ⟨hv, hbs, m₅⟩

/-- Adding `n` words of zeros. -/
theorem Building.fillZeros {n : Nat} (h : Building L v bs buf) (hn : 0 < n)
    (hbound : numBits (built v bs buf) + n * 64 < 2 ^ 63) :
    ∃ v' bs' buf', fillZerosLoop L n n v buf = .ok (v', buf') ∧ Building L v' bs' buf' ∧
      buf'.lastWord = 0 ∧ numBits (built v' bs' buf') = numBits (built v bs buf) + n * 64 ∧
      buf'.lastTid = numBits (built v bs buf) + n * 64 ∧
      (∀ p, bitAt (built v' bs' buf') p = bitAt (built v bs buf) p) ∧
      Kept L 1 v bs buf v' bs' buf' := by
  have hmaxeq : maxFillLength = 2 ^ 63 - 1 := rfl
  have hlen : fillLength (bmMakeFillWord false n) = n := fillLength_make false (by omega)
  have hword : Building L v bs { buf with lastWord := bmMakeFillWord false n } :=
    ⟨h.chain, ⟨h.core.lastTids, h.core.clean, h.core.room, h.core.complete, h.core.unset,
      h.core.fill⟩, h.cur, h.setbit⟩
  have hbuilt : built v bs { buf with lastWord := bmMakeFillWord false n } = built v bs buf := rfl
  obtain ⟨v', bs', buf', e₁, e₂, e₃, e₄, e₅, -, e₆⟩ := hword.merge (f := true)
    (make_ne_literalAllOne false (by omega)) (fun _ => by rw [hlen]; exact hn)
    (by rw [hbuilt, entryLen_fill, hlen]; exact hbound)
  rw [hbuilt] at e₃ e₅
  rw [entryLen_fill, hlen] at e₅
  refine ⟨v', bs', mergewords buf' true, ?_, e₂, e₄, ?_, e₅, ?_, e₆⟩
  · obtain ⟨m, rfl⟩ : ∃ m, n = m + 1 := ⟨n - 1, by omega⟩
    rw [fillZerosLoop, if_neg (by omega), if_neg (by omega)]
    dsimp only
    rw [e₁]
    dsimp only
    rw [Nat.sub_self]
    cases m with
    | zero => rfl
    | succ m => rw [fillZerosLoop, if_pos rfl]
  · have ht : numBits (built v' bs' (mergewords buf' true)) =
      numBits (built v bs buf ++ [(bmMakeFillWord false n, true)]) := e₃.1
    rw [ht, numBits_append]
    simp [hlen]
  · intro p
    rw [bitAt, e₃.2 p]
    exact Segments.bitAt_append_of_false _ (bitAt_zeroFill (by omega)) p

theorem builtBit_of_zero (hw : buf.lastWord = 0) (p : Nat) :
    builtBit v bs buf p = bitAt (built v bs buf) p := by
  rw [builtBit, hw, bitAt, Segments.bitAt_append_of_false _ bitAt_zeroLiteral]

theorem eq_zero_of_bits {w : BmHrlWord} (h : ∀ i, w.getLsbD i = false) : w = 0 := by
  apply BitVec.eq_of_getLsbD_eq
  intro i _
  rw [h i]
  simp

/-- Adding the zeros before a tid. -/
theorem Building.addZeros {tidnum : Nat} (h : Building L v bs buf)
    (hword : ∀ i, buf.lastWord.getLsbD i = true → i < buf.lastTid % 64)
    (hzeros : 0 < tidnum - buf.lastTid - 1) (htid : tidnum < 2 ^ 63) :
    ∃ v' bs' buf', bufAddZeros L v buf (tidnum - buf.lastTid - 1) = .ok (v', buf') ∧
      Building L v' bs' buf' ∧ numBits (built v' bs' buf') = (tidnum - 1) / 64 * 64 ∧
      (∀ i, buf'.lastWord.getLsbD i = true → i < (tidnum - 1) % 64) ∧
      (∀ p, builtBit v' bs' buf' p = builtBit v bs buf p) ∧ buf'.lastTid < tidnum ∧
      Kept L 2 v bs buf v' bs' buf' := by
  have hcomp : buf.lastTid - buf.lastTid % 64 = numBits (built v bs buf) := by
    rw [h.core.complete, built, numBits_append]
  simp only [bufAddZeros]
  have hneed : 64 - (buf.lastTid + 2 ^ 64 - 1) % 2 ^ 64 % 64 - 1 =
      (64 - buf.lastTid % 64) % 64 := by
    omega
  rw [hneed]
  by_cases hc : 0 < (64 - buf.lastTid % 64) % 64 ∧
      (64 - buf.lastTid % 64) % 64 ≤ tidnum - buf.lastTid - 1
  · -- The last word is completed with zeros.
    rw [if_pos hc]
    obtain ⟨v₁, bs₁, buf₁, m₁, m₂, m₃, m₄, m₅, -, m₆⟩ := h.merge (f := false)
      (ne_literalAllOne (Nat.mod_lt _ (by decide)) hword) (fun hf => absurd hf Bool.false_ne_true)
      (by rw [entryLen_literal]; omega)
    rw [m₁]
    dsimp only
    rw [entryLen_literal] at m₅
    have htot : numBits (built v₁ bs₁ (mergewords buf₁ false)) = numBits (built v bs buf) + 64 := by
      have ht : numBits (built v₁ bs₁ (mergewords buf₁ false)) =
        numBits (built v bs buf ++ [(buf.lastWord, false)]) := m₃.1
      rw [ht, numBits_append]
      simp
    have hbits : ∀ p, bitAt (built v₁ bs₁ (mergewords buf₁ false)) p = builtBit v bs buf p := m₃.2
    by_cases hn : 0 < (tidnum - buf.lastTid - 1 - (64 - buf.lastTid % 64) % 64) / 64
    · obtain ⟨v', bs', buf', e₁, e₂, e₃, e₄, e₅, e₆, e₇⟩ := m₂.fillZeros hn (by omega)
      refine ⟨v', bs', buf', e₁, e₂, by omega, ?_, ?_, by omega, m₆.trans e₇⟩
      · intro i hi
        simp [e₃] at hi
      · intro p
        rw [builtBit_of_zero e₃]
        exact (e₆ p).trans (hbits p)
    · have hz : (tidnum - buf.lastTid - 1 - (64 - buf.lastTid % 64) % 64) / 64 = 0 := by omega
      refine ⟨v₁, bs₁, mergewords buf₁ false, by rw [hz]; rfl, m₂, by omega, ?_, ?_, by omega,
        m₆.mono (by decide)⟩
      · intro i hi
        simp [m₄] at hi
      · intro p
        rw [builtBit_of_zero m₄]
        exact hbits p
  · rw [if_neg hc]
    by_cases hn : 0 < (tidnum - buf.lastTid - 1) / 64
    · -- The last word was empty.
      have hw0 : buf.lastWord = 0 := by
        refine eq_zero_of_bits fun i => Bool.eq_false_iff.mpr fun hi => ?_
        have := hword i hi
        omega
      obtain ⟨v', bs', buf', e₁, e₂, e₃, e₄, e₅, e₆, e₇⟩ := h.fillZeros hn (by omega)
      refine ⟨v', bs', buf', e₁, e₂, by omega, ?_, ?_, by omega, e₇.mono (by decide)⟩
      · intro i hi
        simp [e₃] at hi
      · intro p
        rw [builtBit_of_zero e₃, builtBit_of_zero hw0]
        exact e₆ p
    · have hz : (tidnum - buf.lastTid - 1) / 64 = 0 := by omega
      refine ⟨v, bs, buf, by rw [hz]; rfl, h, by omega, ?_, fun _ => rfl, by omega,
        fun _ => ⟨rfl, rfl, by omega⟩⟩
      intro i hi
      have := hword i hi
      omega

/-- The last word, now complete, as it is merged. -/
theorem completedWord {w : BmHrlWord} (hne0 : w ≠ literalAllZero) :
    ∃ w' f, (w == literalAllZero || w == literalAllOne) = f ∧
      (if w = literalAllZero then bmMakeFillWord false 1
        else if w = literalAllOne then bmMakeFillWord true 1 else w) = w' ∧
      w' ≠ literalAllOne ∧ (f = true → 0 < fillLength w') ∧ entryLen (w', f) = 64 ∧
      SameBits [(w, false)] [(w', f)] := by
  rw [if_neg hne0]
  by_cases hone : w = literalAllOne
  · have hlen : fillLength (bmMakeFillWord true 1) = 1 := fillLength_make true (by decide)
    refine ⟨bmMakeFillWord true 1, true, by simp [hone], if_pos hone,
      make_ne_literalAllOne true (by decide), fun _ => by rw [hlen]; decide,
      by rw [entryLen_fill, hlen], ?_⟩
    rw [hone]
    exact sameBits_allOne
  · refine ⟨w, false, ?_, if_neg hone, hone, fun hf => absurd hf Bool.false_ne_true,
      entryLen_literal w, Segments.SameBits.refl _⟩
    rw [Bool.or_eq_false_iff, beq_eq_false_iff_ne, beq_eq_false_iff_ne]
    exact ⟨hne0, hone⟩

/-- Setting the bit of a tid whose word is the last one. -/
theorem Building.setBit {tidnum : Nat} (h : Building L v bs buf) (htid : tidnum < 2 ^ 63)
    (hlt : buf.lastTid < tidnum) (hbuilt : numBits (built v bs buf) = (tidnum - 1) / 64 * 64)
    (hword : ∀ i, buf.lastWord.getLsbD i = true → i < (tidnum - 1) % 64) :
    ∃ v' bs' buf', bufSetBit L v buf tidnum = .ok (v', buf') ∧ Building L v' bs' buf' ∧
      (∀ i, buf'.lastWord.getLsbD i = true → i < buf'.lastTid % 64) ∧ buf'.lastTid = tidnum ∧
      (∀ p, builtBit v' bs' buf' p = (builtBit v bs buf p || decide (p = tidnum - 1))) ∧
      v'.lovItem.bmLastSetbit < tidnum ∧ Kept L 1 v bs buf v' bs' buf' := by
  have hk : (tidnum - 1) % 64 < 64 := Nat.mod_lt _ (by decide)
  have hsetbit := h.setbit
  have hset : ∀ p, bitAt (built v bs buf ++
      [(buf.lastWord ||| 1#64 <<< ((tidnum - 1) % 64), false)]) p =
      (builtBit v bs buf p || decide (p = tidnum - 1)) := by
    intro p
    have hf := (setBit_literal buf.lastWord hk).frame (by simpa using hk) (built v bs buf) []
    rw [List.append_nil, List.append_nil] at hf
    have ht : Segments.total entryLen (built v bs buf) = numBits (built v bs buf) := rfl
    rw [bitAt, hf.2 p, builtBit, bitAt]
    congr 1
    exact decide_eq_decide.mpr (by omega)
  have hbits : ∀ i, (buf.lastWord ||| 1#64 <<< ((tidnum - 1) % 64)).getLsbD i = true →
      i ≤ (tidnum - 1) % 64 := by
    intro i hi
    rw [getLsbD_or_bit _ hk, Bool.or_eq_true, decide_eq_true_eq] at hi
    rcases hi with hi | hi
    · exact (hword i hi).le
    · exact hi.le
  simp only [bufSetBit]
  by_cases hfull : tidnum % 64 = 0
  · rw [if_pos hfull]
    have hne0 : buf.lastWord ||| 1#64 <<< ((tidnum - 1) % 64) ≠ literalAllZero := by
      intro h0
      have hbit := getLsbD_or_bit buf.lastWord hk ((tidnum - 1) % 64)
      rw [h0] at hbit
      simp at hbit
    obtain ⟨w', f, c₁, c₂, c₃, c₄, c₅, c₆⟩ := completedWord hne0
    rw [c₁, c₂]
    have hbuf : Building L v bs { buf with lastWord := w' } :=
      ⟨h.chain, ⟨h.core.lastTids, h.core.clean, h.core.room, h.core.complete, h.core.unset,
        h.core.fill⟩, h.cur, h.setbit⟩
    have hsame : built v bs { buf with lastWord := w' } = built v bs buf := rfl
    obtain ⟨v', bs', buf', m₁, m₂, m₃, m₄, m₅, m₆, m₇⟩ := hbuf.merge (f := f) c₃ c₄
      (by rw [hsame, c₅]; omega)
    rw [hsame] at m₃ m₅
    rw [c₅] at m₅
    rw [m₁]
    dsimp only at m₆ ⊢
    have htot : numBits (built v' bs' (mergewords buf' f)) = numBits (built v bs buf) + 64 := by
      have ht : numBits (built v' bs' (mergewords buf' f)) =
        numBits (built v bs buf ++ [(w', f)]) := m₃.1
      rw [ht, numBits_append]
      simp [c₅]
    have hcomplete := m₂.core.complete
    have hsplit : numBits (built v' bs' (mergewords buf' f)) =
        numBits (chainEntries v'.pages bs') + numBits (flat (mergewords buf' f)) := by
      rw [built, numBits_append]
    have hcore : BufCore (numBits (chainEntries v'.pages bs'))
        { mergewords buf' f with lastTid := tidnum } := by
      refine ⟨m₂.core.lastTids, m₂.core.clean, m₂.core.room, ?_, m₂.core.unset, m₂.core.fill⟩
      change tidnum - tidnum % 64 = numBits (chainEntries v'.pages bs') +
        numBits (flat (mergewords buf' f))
      omega
    refine ⟨v', bs', _, rfl, ⟨m₂.chain, hcore, m₂.cur, ?_⟩, ?_, rfl, ?_, by omega, m₇⟩
    · dsimp only
      omega
    · intro i hi
      simp [m₄] at hi
    · intro p
      have hs := (c₆.frame (built v bs buf) []).2 p
      rw [List.append_nil, List.append_nil] at hs
      have hlast : builtBit v' bs' { mergewords buf' f with lastTid := tidnum } p =
        bitAt (built v' bs' (mergewords buf' f)) p := builtBit_of_zero m₄ p
      rw [hlast, ← hset p, bitAt, m₃.2 p]
      exact hs
  · rw [if_neg hfull]
    refine ⟨v, bs, _, rfl, ⟨h.chain, ⟨h.core.lastTids, h.core.clean, h.core.room, ?_, h.core.unset,
      h.core.fill⟩, h.cur, ?_⟩, ?_, rfl, hset, by omega, fun _ => ⟨rfl, rfl, Nat.le_succ _⟩⟩
    · change tidnum - tidnum % 64 = numBits (chainEntries v.pages bs) + numBits (flat buf)
      rw [built, numBits_append] at hbuilt
      omega
    · dsimp only
      omega
    · intro i hi
      have := hbits i hi
      dsimp only
      omega

/-- **Adding a tid** to a vector and its buffer. -/
theorem Building.addTid {tidnum : Nat} (h : Building L v bs buf)
    (hword : ∀ i, buf.lastWord.getLsbD i = true → i < buf.lastTid % 64)
    (hlt : buf.lastTid < tidnum) (htid : tidnum < 2 ^ 63) :
    ∃ v' bs' buf', bufAddTidWithFill L v buf tidnum = .ok (v', buf') ∧ Building L v' bs' buf' ∧
      (∀ i, buf'.lastWord.getLsbD i = true → i < buf'.lastTid % 64) ∧ buf'.lastTid = tidnum ∧
      (∀ p, builtBit v' bs' buf' p = (builtBit v bs buf p || decide (p = tidnum - 1))) ∧
      v'.lovItem.bmLastSetbit < tidnum ∧ Kept L 3 v bs buf v' bs' buf' := by
  have hz : (tidnum + 2 ^ 64 - buf.lastTid - 1) % 2 ^ 64 = tidnum - buf.lastTid - 1 := by omega
  simp only [bufAddTidWithFill]
  rw [hz, if_neg (by omega)]
  by_cases hzeros : 0 < tidnum - buf.lastTid - 1
  · obtain ⟨v₁, bs₁, buf₁, e₁, e₂, e₃, e₄, e₅, e₆, e₇⟩ := h.addZeros hword hzeros htid
    obtain ⟨v₂, bs₂, buf₂, f₁, f₂, f₃, f₄, f₅, f₆, f₇⟩ := e₂.setBit htid e₆ e₃ e₄
    rw [if_pos hzeros, e₁]
    refine ⟨v₂, bs₂, buf₂, f₁, f₂, f₃, f₄, ?_, f₆, e₇.trans f₇⟩
    intro p
    rw [f₅, e₅]
  · -- The bit right after the last set one.
    have hcomp := h.core.complete
    rw [if_neg hzeros]
    obtain ⟨v', bs', buf', f₁, f₂, f₃, f₄, f₅, f₆, f₇⟩ := h.setBit htid hlt
      (by rw [built, numBits_append]; omega) fun i hi => by have := hword i hi; omega
    exact ⟨v', bs', buf', f₁, f₂, f₃, f₄, f₅, f₆, f₇.mono (by decide)⟩

end

end Hdb.Bitmap
