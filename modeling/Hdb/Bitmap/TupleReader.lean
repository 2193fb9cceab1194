import Hdb.Bitmap.Readers
import Hdb.Bitmap.Union
import Hdb.Lib.Iterate

/-!
# The tuple interface

The tuple interface gives the positions of the set bits, from 1, in order: each call of
`bitmapFindnexttids` finds the tids of a stretch of the bits that begins where the call before has
stopped (`TidInv`), in the middle of a literal, between two words of a fill or at the end of a
batch.
-/

namespace Hdb.Bitmap

/-- The tids of the set bits from `a` up to, but not including, `b`. -/
def tidsBetween (bit : Nat → Bool) (a b : Nat) : List Nat :=
  ((List.range' a (b - a)).filter bit).map (· + 1)

section

variable {bit : Nat → Bool} {a b c : Nat}

@[simp] theorem tidsBetween_self (bit : Nat → Bool) (a : Nat) : tidsBetween bit a a = [] := by
  rw [tidsBetween, Nat.sub_self]
  rfl

theorem tidsBetween_append (bit : Nat → Bool) (hab : a ≤ b) (hbc : b ≤ c) :
    tidsBetween bit a b ++ tidsBetween bit b c = tidsBetween bit a c := by
  have hsum : c - a = b - a + (c - b) := by omega
  rw [tidsBetween, tidsBetween, tidsBetween, ← List.map_append, ← List.filter_append, hsum]
  conv_lhs => rw [show List.range' b (c - b) = List.range' (a + (b - a)) (c - b) by
    rw [Nat.add_sub_cancel' hab]]
  rw [List.range'_append_1]

theorem mem_tidsBetween {t : Nat} :
    t ∈ tidsBetween bit a b ↔ a < t ∧ t ≤ b ∧ bit (t - 1) = true := by
  simp only [tidsBetween, List.mem_map, List.mem_filter, List.mem_range'_1]
  constructor
  · rintro ⟨p, ⟨⟨hap, hpb⟩, hbit⟩, rfl⟩
    exact ⟨by omega, by omega, hbit⟩
  · rintro ⟨hat, htb, hbit⟩
    exact ⟨t - 1, ⟨⟨by omega, by omega⟩, hbit⟩, by omega⟩

theorem pairwise_tidsBetween (bit : Nat → Bool) (a b : Nat) :
    (tidsBetween bit a b).Pairwise (· < ·) := by
  rw [tidsBetween, List.pairwise_map]
  apply List.Pairwise.filter
  apply List.Pairwise.imp _ List.pairwise_lt_range'
  intro x y hxy
  exact Nat.succ_lt_succ hxy

theorem tidsBetween_zeros (h : ∀ p, a ≤ p → p < b → bit p = false) : tidsBetween bit a b = [] := by
  rw [List.eq_nil_iff_forall_not_mem]
  intro t ht
  obtain ⟨hat, htb, hbit⟩ := mem_tidsBetween.mp ht
  rw [h (t - 1) (by omega) (by omega)] at hbit
  exact Bool.false_ne_true hbit

theorem tidsBetween_ones (h : ∀ p, a ≤ p → p < b → bit p = true) :
    tidsBetween bit a b = List.range' (a + 1) (b - a) := by
  rw [tidsBetween, List.filter_eq_self.mpr]
  · rw [List.range'_succ_left]
  · intro p hp
    obtain ⟨h₁, h₂⟩ := List.mem_range'_1.mp hp
    exact h p h₁ (by omega)

/-- The only bit that is set is the last one. -/
theorem tidsBetween_last (hab : a < b) (h : ∀ p, a ≤ p → p < b - 1 → bit p = false)
    (hlast : bit (b - 1) = true) : tidsBetween bit a b = [b] := by
  rw [← tidsBetween_append bit (show a ≤ b - 1 by omega) (Nat.sub_le b 1), tidsBetween_zeros h,
    List.nil_append, tidsBetween_ones]
  · rw [show b - (b - 1) = 1 by omega, show b - 1 + 1 = b by omega]
    rfl
  · intro p h₁ h₂
    rw [show p = b - 1 by omega]
    exact hlast

end

/-! ## The position in a batch -/

/-- The batch as it is read after `n` uncompressed words of the vector. -/
def BatchReader.batch (r : BatchReader) (n : Nat) : BMBatchWords :=
  { r.words with startNo := r.result.lastScanWordNo, nwordsread := n }

/-- The reader is at word `n` of the vector. -/
abbrev ReadsAt (c : Content) (n : Nat) (r : BatchReader) : Prop := Reads c (r.batch n)

/-- The number of uncompressed words of the current word. -/
def BatchReader.len (r : BatchReader) : Nat := if r.isFill then fillLength r.word else 1

section

variable {c : Content} {n : Nat} {r r' : BatchReader}

theorem ReadsAt.congr (h : ReadsAt c n r) (hw : r'.words = r.words)
    (hno : r'.result.lastScanWordNo = r.result.lastScanWordNo) : ReadsAt c n r' := by
  have hb : r'.batch n = r.batch n := by rw [BatchReader.batch, BatchReader.batch, hw, hno]
  rw [ReadsAt, hb]
  exact h

theorem ReadsAt.bit (h : ReadsAt c n r) (hn : 0 < r.words.nwords) {j : Nat} (hj : j < 64 * r.len) :
    bitAt c.all (64 * n + j) = entryBit (r.word, r.isFill) j :=
  Reads.bit h hn hj

theorem ReadsAt.fill_pos (h : ReadsAt c n r) (hn : 0 < r.words.nwords) (hf : r.isFill = true) :
    0 < fillLength r.word :=
  Reads.fill_pos h hn hf

/-- A fill word is never taken for an empty one. -/
theorem ReadsAt.fillLen_eq (h : ReadsAt c n r) (hn : 0 < r.words.nwords)
    (hw : r.isFill = true ∨ r.word = 0) : r.fillLen = r.len := by
  rw [BatchReader.fillLen, BatchReader.len]
  cases hf : r.isFill with
  | true =>
    have hpos := h.fill_pos hn hf
    rw [if_neg, if_pos rfl]
    intro hzero
    rw [hzero] at hpos
    exact absurd hpos (by decide)
  | false =>
    have hzero : r.word = 0 := hw.resolve_left (by simp [hf])
    rw [if_pos hzero, if_neg Bool.false_ne_true]

theorem ReadsAt.pass (h : ReadsAt c n r) (hn : 0 < r.words.nwords) (k : Nat) :
    ReadsAt c (n + r.len) (r.pass k) :=
  Reads.pass h hn rfl rfl

/-- Passing a word that has been shortened before. -/
theorem ReadsAt.pass_shorten (h : ReadsAt c n r) (hn : 0 < r.words.nwords) {j : Nat}
    {r' : BatchReader} (hw : r'.words = (r.shorten j).words)
    (hno : r'.result.lastScanWordNo = r.result.lastScanWordNo) (k : Nat) :
    ReadsAt c (n + r.len) (r'.pass k) := by
  refine Reads.pass h hn rfl ?_
  have hb : (r'.pass k).batch (n + r.len) =
      ((r.shorten j).pass k).batch (n + r.len) := by
    rw [BatchReader.batch, BatchReader.batch, BatchReader.pass, BatchReader.pass, hw, hno]
    rfl
  rw [hb]
  apply entriesFrom_congr
  · intro i _
    exact Function.update_of_ne (by show r.result.lastScanWordNo + 1 + i ≠ _; omega) _ _
  · intro i _
    rfl

theorem ReadsAt.shorten (h : ReadsAt c n r) (hn : 0 < r.words.nwords) (hf : r.isFill = true)
    {k : Nat} (hk : k < fillLength r.word) {r' : BatchReader} (hw : r'.words = (r.shorten k).words)
    (hno : r'.result.lastScanWordNo = r.result.lastScanWordNo) : ReadsAt c (n + k) r' := by
  have hr : ReadsAt c (n + k) (r.shorten k) :=
    Reads.shorten h hn hf hk rfl (entries_update hn rfl rfl rfl rfl)
  exact hr.congr hw hno

theorem shorten_zero (r : BatchReader) : (r.shorten 0).words = r.words := by
  show { r.words with
    cwords := Function.update r.words.cwords r.result.lastScanWordNo (r.word - 0#64) } = r.words
  rw [BitVec.sub_zero, BatchReader.word, Function.update_eq_self]

theorem shorten_add (r : BatchReader) (j k : Nat) (r' : BatchReader)
    (hw : r'.words = (r.shorten j).words)
    (hno : r'.result.lastScanWordNo = r.result.lastScanWordNo) :
    (r'.shorten k).words = (r.shorten (j + k)).words := by
  have hword : r'.word = r.word - BitVec.ofNat 64 j := by
    rw [BatchReader.word, hw, hno]
    exact Function.update_self ..
  rw [BatchReader.shorten, BatchReader.shorten, hword, hw, hno]
  simp only [BatchReader.shorten, Function.update_idem]
  rw [BitVec.ofNat_add, BitVec.sub_sub]

end

/-! ## Finding tids in a batch -/

theorem and_bit_eq_zero (w : BmHrlWord) {k : Nat} (hk : k < 64) :
    w &&& 1#64 <<< k = 0 ↔ w.getLsbD k = false := by
  have hone : ∀ p, (1#64 <<< k).getLsbD p = decide (p = k) := by
    intro p
    have h := getLsbD_or_bit 0#64 hk p
    simpa using h
  constructor
  · intro h
    have hbit := congrArg (fun x => x.getLsbD k) h
    simpa [hone] using hbit
  · intro h
    apply BitVec.eq_of_getLsbD_eq
    intro p _
    rw [BitVec.getLsbD_and, hone]
    by_cases hp : p = k
    · simp [hp, h]
    · simp [hp]

/-- What `findBitsetLoop` finds from the position `pos` on. -/
theorem findBitsetLoop_spec (w : BmHrlWord) (n pos : Nat) (hpos : 1 ≤ pos) (hn : pos + n = 65) :
    (findBitsetLoop w n pos = 0 ∧ ∀ p, pos ≤ p + 1 → p < 64 → w.getLsbD p = false) ∨
      (pos ≤ findBitsetLoop w n pos ∧ findBitsetLoop w n pos ≤ 64 ∧
        w.getLsbD (findBitsetLoop w n pos - 1) = true ∧
        ∀ p, pos ≤ p + 1 → p < findBitsetLoop w n pos - 1 → w.getLsbD p = false) := by
  induction n generalizing pos with
  | zero =>
    left
    refine ⟨rfl, ?_⟩
    intro p h₁ h₂
    omega
  | succ n ih =>
    have hbit := and_bit_eq_zero w (show pos - 1 < 64 by omega)
    rw [findBitsetLoop]
    by_cases hz : w &&& 1#64 <<< (pos - 1) = 0
    · rw [if_pos hz]
      have hfalse := hbit.mp hz
      -- the bit at `pos` is not set, and what holds of the later ones holds from `pos` on
      have hext : ∀ p, pos ≤ p + 1 → p = pos - 1 ∨ pos + 1 ≤ p + 1 := by
        intro p hp
        omega
      rcases ih (pos + 1) (by omega) (by omega) with ⟨h₁, h₂⟩ | ⟨h₁, h₂, h₃, h₄⟩
      · left
        refine ⟨h₁, ?_⟩
        intro p hp hlt
        rcases hext p hp with rfl | hp
        · exact hfalse
        · exact h₂ p hp hlt
      · right
        refine ⟨by omega, h₂, h₃, ?_⟩
        intro p hp hlt
        rcases hext p hp with rfl | hp
        · exact hfalse
        · exact h₄ p hp hlt
    · rw [if_neg hz]
      right
      refine ⟨le_rfl, by omega, ?_, ?_⟩
      · rwa [hbit, Bool.not_eq_false] at hz
      · intro p h₁ h₂
        omega

/-- **Expanding a fill word** finds the tids of as many of its words as there is space for. -/
theorem expandFill_spec (maxTids k : Nat) (r : BatchReader) :
    ∃ m r', expandFill maxTids k r = (m, r') ∧ m ≤ k ∧ r'.words = (r.shorten (k - m)).words ∧
      r'.result = { r.result with
        nextTids := r.result.nextTids ++ List.range' (r.result.nextTid + 1) (64 * (k - m))
        nextTid := r.result.nextTid + 64 * (k - m) } ∧
      (m ≠ 0 → maxTids < r'.result.nextTids.length + 64) := by
  induction k generalizing r with
  | zero =>
    refine ⟨0, r, rfl, le_rfl, ?_, ?_, fun h => absurd rfl h⟩
    · rw [Nat.sub_zero, shorten_zero]
    · simp
  | succ k ih =>
    rw [expandFill]
    by_cases hlen : r.result.nextTids.length + 64 ≤ maxTids
    · rw [if_pos hlen]
      obtain ⟨m, r', he, hm, hw, hres, hfull⟩ := ih ⟨(r.shorten 1).words, { r.result with
        nextTids := r.result.nextTids ++ List.range' (r.result.nextTid + 1) 64
        nextTid := r.result.nextTid + 64 }⟩
      refine ⟨m, r', he, by omega, ?_, ?_, hfull⟩
      · have hadd := shorten_add r 1 (k - m) ⟨(r.shorten 1).words, { r.result with
          nextTids := r.result.nextTids ++ List.range' (r.result.nextTid + 1) 64
          nextTid := r.result.nextTid + 64 }⟩ rfl rfl
        rw [hw, hadd, show 1 + (k - m) = k + 1 - m by omega]
      · rw [hres]
        simp only [List.append_assoc]
        have hrange : List.range' (r.result.nextTid + 1) 64 ++
            List.range' (r.result.nextTid + 64 + 1) (64 * (k - m)) =
            List.range' (r.result.nextTid + 1) (64 * (k + 1 - m)) := by
          rw [show r.result.nextTid + 64 + 1 = r.result.nextTid + 1 + 64 by omega,
            List.range'_append_1, show 64 + 64 * (k - m) = 64 * (k + 1 - m) by omega]
        rw [hrange, show r.result.nextTid + 64 + 64 * (k - m) = r.result.nextTid + 64 * (k + 1 - m)
          by omega]
    · rw [if_neg hlen]
      refine ⟨k + 1, r, rfl, le_rfl, ?_, ?_, fun _ => by omega⟩
      · rw [Nat.sub_self, shorten_zero]
      · simp

/-- The reader is at the bit `nextTid` of the vector, in word `n`, and has found the tids from `a`
on. -/
structure TidInv (c : Content) (a : Nat) (r : BatchReader) (n : Nat) : Prop where
  reads : ReadsAt c n r
  nextTid : r.result.nextTid = 64 * n + r.result.lastScanPos
  pos_le : r.result.lastScanPos ≤ 64
  pos_literal : r.result.lastScanPos ≠ 0 → 0 < r.words.nwords ∧ r.isFill = false
  le : a ≤ r.result.nextTid
  tids : r.result.nextTids = tidsBetween (bitAt c.all) a r.result.nextTid

section

variable {c : Content} {a n : Nat} {r : BatchReader}

/-- The reader passes the bits up to `nextTid'`, and adds their tids to those it has found. -/
theorem TidInv.advance (h : TidInv c a r n) {n' : Nat} {r' : BatchReader} (tids : List Nat)
    (hreads : ReadsAt c n' r') (hnext : r'.result.nextTid = 64 * n' + r'.result.lastScanPos)
    (hpos : r'.result.lastScanPos ≤ 64)
    (hlit : r'.result.lastScanPos ≠ 0 → 0 < r'.words.nwords ∧ r'.isFill = false)
    (hle : r.result.nextTid ≤ r'.result.nextTid)
    (htids : tidsBetween (bitAt c.all) r.result.nextTid r'.result.nextTid = tids)
    (hnew : r'.result.nextTids = r.result.nextTids ++ tids) : TidInv c a r' n' := by
  refine ⟨hreads, hnext, hpos, hlit, h.le.trans hle, ?_⟩
  rw [hnew, h.tids, ← htids, tidsBetween_append _ h.le hle]

/-- Passing a word of zeros. -/
theorem TidInv.passZeros (h : TidInv c a r n) (hn : 0 < r.words.nwords)
    (hpos : r.result.lastScanPos = 0)
    (hz : (r.isFill = true ∧ getFillBit r.word = false) ∨ r.word = 0) :
    TidInv c a (r.pass (r.fillLen * 64)) (n + r.len) := by
  have hlen := h.reads.fillLen_eq hn (hz.imp_left And.left)
  have hnext : (r.pass (r.fillLen * 64)).result.nextTid = 64 * (n + r.len) + 0 := by
    show r.result.nextTid + r.fillLen * 64 = _
    rw [h.nextTid, hpos, hlen]
    omega
  refine h.advance [] (h.reads.pass hn _) hnext (Nat.zero_le _) (fun h0 => absurd rfl h0)
    (Nat.le_add_right _ _) ?_ (List.append_nil _).symm
  rw [hnext, h.nextTid, hpos]
  apply tidsBetween_zeros
  intro p h₁ h₂
  have hbit := h.reads.bit hn (show p - 64 * n < 64 * r.len by omega)
  rw [show 64 * n + (p - 64 * n) = p by omega] at hbit
  rw [hbit]
  rcases hz with ⟨hf, hb⟩ | h0
  · rw [hf, entryBit_fill, hb]
  · rw [h0]
    cases r.isFill with
    | true => rw [entryBit_fill]; decide
    | false => rw [entryBit_literal]; exact BitVec.getLsbD_zero

/-- Expanding a fill of ones passes it, or stops in it when there is no space for 64 more tids. -/
theorem TidInv.expandFill (h : TidInv c a r n) (hn : 0 < r.words.nwords) (hf : r.isFill = true)
    (hb : getFillBit r.word = true) (maxTids : Nat) :
    ∃ m r', Bitmap.expandFill maxTids (fillLength r.word) r = (m, r') ∧
      r'.result.nextTidLoc = r.result.nextTidLoc ∧ r'.words.nwords = r.words.nwords ∧
      (m = 0 → TidInv c a (r'.pass 0) (n + r.len)) ∧
      (m ≠ 0 → ∃ n', TidInv c a r' n' ∧ maxTids < r'.result.nextTids.length + 64) := by
  obtain ⟨m, r', he, hm, hw, hres, hfull⟩ := expandFill_spec maxTids (fillLength r.word) r
  have hpos : r.result.lastScanPos = 0 := by
    by_contra h0
    have hlit := (h.pos_literal h0).2
    rw [hf] at hlit
    exact absurd hlit (by decide)
  have hno : r'.result.lastScanWordNo = r.result.lastScanWordNo := by rw [hres]
  have hlen : r.len = fillLength r.word := by rw [BatchReader.len, if_pos hf]
  have hnext : r'.result.nextTid = r.result.nextTid + 64 * (fillLength r.word - m) := by rw [hres]
  have hnew : r'.result.nextTids = r.result.nextTids ++
      List.range' (r.result.nextTid + 1) (64 * (fillLength r.word - m)) := by rw [hres]
  -- the bits passed are all set
  have htids : tidsBetween (bitAt c.all) r.result.nextTid r'.result.nextTid =
      List.range' (r.result.nextTid + 1) (64 * (fillLength r.word - m)) := by
    rw [tidsBetween_ones, hnext, Nat.add_sub_cancel_left]
    intro p h₁ h₂
    rw [h.nextTid, hpos] at h₁
    rw [hnext, h.nextTid, hpos] at h₂
    have hbit := h.reads.bit hn (show p - 64 * n < 64 * r.len by omega)
    rw [show 64 * n + (p - 64 * n) = p by omega, hf, entryBit_fill, hb] at hbit
    exact hbit
  refine ⟨m, r', he, by rw [hres], by rw [hw]; rfl, ?_, ?_⟩
  · rintro rfl
    refine h.advance _ (h.reads.pass_shorten hn hw hno 0) ?_ (Nat.zero_le _)
      (fun h0 => absurd rfl h0) (by show _ ≤ r'.result.nextTid + 0; omega) htids hnew
    show r'.result.nextTid + 0 = 64 * (n + r.len) + 0
    rw [hnext, h.nextTid, hpos, hlen]
    omega
  · intro hm0
    refine ⟨n + (fillLength r.word - m), ?_, hfull hm0⟩
    have hpos' : r'.result.lastScanPos = 0 := by rw [hres]; exact hpos
    refine h.advance _ (h.reads.shorten hn hf (by omega) hw hno) ?_ (by omega)
      (fun h0 => absurd hpos' h0) (by omega) htids hnew
    rw [hnext, hpos', h.nextTid, hpos]
    omega

/-- **Scanning a literal** finds the tids of its bits and passes it, or stops when there are
`maxTids` tids. -/
theorem TidInv.scanLiteral {fuel : Nat} (h : TidInv c a r n) (maxTids : Nat)
    (hn : 0 < r.words.nwords) (hf : r.isFill = false) (hfuel : 65 ≤ fuel + r.result.lastScanPos) :
    ∃ n', TidInv c a (Bitmap.scanLiteral maxTids fuel r.result.lastScanPos r) n' ∧
      (Bitmap.scanLiteral maxTids fuel r.result.lastScanPos r).result.nextTidLoc =
        r.result.nextTidLoc ∧
      ((Bitmap.scanLiteral maxTids fuel r.result.lastScanPos r).words.nwords = r.words.nwords - 1 ∨
        maxTids ≤
        (Bitmap.scanLiteral maxTids fuel r.result.lastScanPos r).result.nextTids.length) := by
  induction fuel generalizing r with
  | zero => exact absurd h.pos_le (by omega)
  | succ fuel ih =>
    rw [Bitmap.scanLiteral]
    by_cases hmax : r.result.nextTids.length < maxTids
    · rw [if_pos hmax]
      have hlen : r.len = 1 := by rw [BatchReader.len, if_neg (by simp [hf])]
      have hbits : ∀ p, p < 64 → bitAt c.all (64 * n + p) = r.word.getLsbD p := by
        intro p hp
        rw [h.reads.bit hn (by omega), hf, entryBit_literal]
      have hspec := findBitsetLoop_spec r.word (64 - r.result.lastScanPos)
        (r.result.lastScanPos + 1) (by omega) (by have := h.pos_le; omega)
      rw [← bitmapFindBitset] at hspec
      have hpos := h.pos_le
      generalize bitmapFindBitset r.word r.result.lastScanPos = q at hspec ⊢
      rcases hspec with ⟨rfl, hz⟩ | ⟨h₁, h₂, h₃, h₄⟩
      · dsimp only
        rw [if_neg (by omega)]
        refine ⟨n + r.len, ?_, rfl, .inl rfl⟩
        have hnext : (r.pass (64 - r.result.lastScanPos)).result.nextTid =
            64 * (n + r.len) + 0 := by
          show r.result.nextTid + (64 - r.result.lastScanPos) = _
          rw [h.nextTid, hlen]
          omega
        refine h.advance [] (h.reads.pass hn _) hnext (Nat.zero_le _) (fun h0 => absurd rfl h0)
          (Nat.le_add_right _ _) ?_ (List.append_nil _).symm
        rw [hnext, h.nextTid, hlen]
        apply tidsBetween_zeros
        intro p hp₁ hp₂
        rw [show p = 64 * n + (p - 64 * n) by omega, hbits _ (by omega)]
        exact hz _ (by omega) (by omega)
      · dsimp only
        rw [if_pos (by omega)]
        have hnext : r.result.nextTid + (q - r.result.lastScanPos) = 64 * n + q := by
          rw [h.nextTid]
          omega
        refine ih (r := ⟨r.words, { r.result with
          lastScanPos := q
          nextTid := r.result.nextTid + (q - r.result.lastScanPos)
          nextTids := r.result.nextTids ++ [r.result.nextTid + (q - r.result.lastScanPos)] }⟩)
          ?_ hn hf (by show 65 ≤ fuel + q; omega)
        refine h.advance _ (h.reads.congr rfl rfl) hnext h₂ (fun _ => ⟨hn, hf⟩)
          (Nat.le_add_right _ _) ?_ rfl
        show tidsBetween _ r.result.nextTid (r.result.nextTid + (q - r.result.lastScanPos)) = _
        rw [hnext, h.nextTid]
        apply tidsBetween_last (by omega)
        · intro p hp₁ hp₂
          rw [show p = 64 * n + (p - 64 * n) by omega, hbits _ (by omega)]
          exact h₄ _ (by omega) (by omega)
        · rw [show 64 * n + q - 1 = 64 * n + (q - 1) by omega, hbits _ (by omega)]
          exact h₃
    · rw [if_neg hmax]
      exact ⟨n, h, rfl, .inr (by omega)⟩

/-- **Finding tids** goes on to the end of the batch, or has found some. -/
theorem TidInv.findnexttidsLoop {maxTids fuel : Nat} (hmax : 64 ≤ maxTids) (h : TidInv c a r n)
    (hfuel : r.words.nwords ≤ fuel ∨ maxTids ≤ r.result.nextTids.length) :
    ∃ r' n', Bitmap.findnexttidsLoop maxTids fuel r = r' ∧ TidInv c a r' n' ∧
      r'.result.nextTidLoc = r.result.nextTidLoc ∧
      (r'.words.nwords = 0 ∨ 0 < r'.result.nextTids.length) := by
  induction fuel generalizing r n with
  | zero => exact ⟨r, n, rfl, h, rfl, hfuel.imp Nat.le_zero.mp (by omega)⟩
  | succ fuel ih =>
    rw [Bitmap.findnexttidsLoop]
    by_cases hgo : 0 < r.words.nwords ∧ r.result.nextTids.length < maxTids
    · obtain ⟨hn, hlt⟩ := hgo
      rw [if_pos ⟨hn, hlt⟩]
      have hnw : r.words.nwords ≤ fuel + 1 := hfuel.resolve_right (by omega)
      by_cases hz : r.result.lastScanPos = 0 ∧
          ((r.isFill = true ∧ getFillBit r.word = false) ∨ r.word = 0)
      · rw [if_pos hz]
        exact ih (h.passZeros hn hz.1 hz.2) (.inl (by show r.words.nwords - 1 ≤ fuel; omega))
      · rw [if_neg hz]
        by_cases hones : r.isFill = true ∧ getFillBit r.word = true
        · rw [if_pos hones]
          obtain ⟨m, r', he, hloc, hnw', hall, hsome⟩ := h.expandFill hn hones.1 hones.2 maxTids
          rw [he]
          by_cases hm : m = 0
          · dsimp only
            rw [if_pos hm]
            obtain ⟨r'', n', h₁, h₂, h₃, h₄⟩ := ih (hall hm)
              (.inl (by show r'.words.nwords - 1 ≤ fuel; omega))
            exact ⟨r'', n', h₁, h₂, h₃.trans hloc, h₄⟩
          · dsimp only
            rw [if_neg hm]
            obtain ⟨n', hinv, hfull⟩ := hsome hm
            exact ⟨r', n', rfl, hinv, hloc, .inr (by omega)⟩
        · rw [if_neg hones]
          -- what is left is a literal that is not zero, or one that was left in the middle
          have hf : r.isFill = false := by
            by_contra hf
            rw [Bool.not_eq_false] at hf
            have hpos : r.result.lastScanPos = 0 := by
              by_contra h0
              have hlit := (h.pos_literal h0).2
              rw [hf] at hlit
              exact absurd hlit (by decide)
            cases hb : getFillBit r.word with
            | true => exact hones ⟨hf, hb⟩
            | false => exact hz ⟨hpos, .inl ⟨hf, hb⟩⟩
          obtain ⟨n', hinv, hloc, hend⟩ := h.scanLiteral maxTids hn hf (Nat.le_add_right 65 _)
          obtain ⟨r'', n'', h₁, h₂, h₃, h₄⟩ := ih hinv (hend.imp (fun heq => by omega) id)
          exact ⟨r'', n'', h₁, h₂, h₃.trans hloc, h₄⟩
    · rw [if_neg hgo]
      exact ⟨r, n, rfl, h, rfl, by omega⟩

theorem TidInv.nextTid_le (h : TidInv c a r n) : r.result.nextTid ≤ numBits c.all := by
  have hlen : numBits c.all = 64 * n + numBits ((r.batch n).entries ++ c.later) := h.reads.drop.1
  rw [numBits_append] at hlen
  rw [h.nextTid]
  by_cases h0 : r.result.lastScanPos = 0
  · omega
  · obtain ⟨hn, hf⟩ := h.pos_literal h0
    have hpos := h.pos_le
    have hcons : (r.batch n).entries = (r.word, r.isFill) :: (r.batch n).tail := entries_cons hn
    have hword : numBits ((r.word, r.isFill) :: (r.batch n).tail) =
        entryLen (r.word, r.isFill) + numBits (r.batch n).tail := Segments.total_cons ..
    rw [hcons, hword, hf, entryLen_literal] at hlen
    omega

/-- At the end of a batch all its bits are read. -/
theorem TidInv.drop_of_end (h : TidInv c a r n) (hn : r.words.nwords = 0) :
    Drop c.all c.later r.result.nextTid := by
  have hpos : r.result.lastScanPos = 0 := by
    by_contra h0
    have := (h.pos_literal h0).1
    omega
  have hdrop := h.reads.drop
  have hnil : (r.batch n).entries = [] := entries_nil hn
  rw [hnil, List.nil_append] at hdrop
  rw [h.nextTid, hpos]
  exact hdrop

/-- The tids a reader has not handed out yet. -/
def BatchReader.pending (r : BatchReader) (all : List Entry) : List Nat :=
  r.result.nextTids.drop r.result.nextTidLoc ++
    tidsBetween (bitAt all) r.result.nextTid (numBits all)

/-- Finding the tids of the next stretch does not change what is still to be handed out. -/
theorem TidInv.findnexttids {maxTids : Nat} (hmax : 64 ≤ maxTids) (h : TidInv c a r n)
    (hend : r.result.nextTids.length ≤ r.result.nextTidLoc) :
    ∃ r' a' n', bitmapFindnexttids maxTids r = r' ∧ TidInv c a' r' n' ∧ r'.result.nextTidLoc = 0 ∧
      (r'.words.nwords = 0 ∨ 0 < r'.result.nextTids.length) ∧
      r.pending c.all = r'.pending c.all := by
  have hstart : TidInv c r.result.nextTid
      ⟨r.words, { r.result with nextTidLoc := 0, nextTids := [] }⟩ n :=
    ⟨h.reads.congr rfl rfl, h.nextTid, h.pos_le, h.pos_literal, le_rfl,
      (tidsBetween_self _ _).symm⟩
  obtain ⟨r', n', hr', hinv, hloc, hfound⟩ := hstart.findnexttidsLoop hmax (.inl le_rfl)
  refine ⟨r', r.result.nextTid, n', hr', hinv, hloc, hfound, ?_⟩
  have hle : r.result.nextTid ≤ r'.result.nextTid := hinv.le
  rw [BatchReader.pending, BatchReader.pending, List.drop_of_length_le hend, hloc, List.drop_zero,
    hinv.tids, tidsBetween_append _ hle hinv.nextTid_le, List.nil_append]

/-- **The next tid** is the first one that is still to be handed out; if there is none in the batch,
the batch is at its end. -/
theorem TidInv.findnexttid {maxTids : Nat} (hmax : 64 ≤ maxTids) (h : TidInv c a r n) :
    ∃ r' t a' n', bitmapFindnexttid maxTids r = (r', t) ∧ TidInv c a' r' n' ∧
      (t = 0 → r'.words.nwords = 0 ∧ r'.result.nextTids.length ≤ r'.result.nextTidLoc ∧
        r.pending c.all = r'.pending c.all) ∧
      (t ≠ 0 → r.pending c.all = t :: r'.pending c.all) := by
  -- taking the tid at `nextTidLoc`
  have htake : ∀ {r' : BatchReader} {a' n' : Nat}, TidInv c a' r' n' →
      (hlt : r'.result.nextTidLoc < r'.result.nextTids.length) →
      TidInv c a' ⟨r'.words, { r'.result with nextTidLoc := r'.result.nextTidLoc + 1 }⟩ n' ∧
        r'.result.nextTids[r'.result.nextTidLoc] ≠ 0 ∧
        r'.pending c.all = r'.result.nextTids[r'.result.nextTidLoc] ::
          BatchReader.pending ⟨r'.words, { r'.result with nextTidLoc := r'.result.nextTidLoc + 1 }⟩
            c.all := by
    intro r' a' n' hinv hlt
    refine ⟨⟨hinv.reads.congr rfl rfl, hinv.nextTid, hinv.pos_le, hinv.pos_literal, hinv.le,
      hinv.tids⟩, ?_, ?_⟩
    · have hmem : r'.result.nextTids[r'.result.nextTidLoc] ∈
          tidsBetween (bitAt c.all) a' r'.result.nextTid := hinv.tids ▸ List.getElem_mem hlt
      have hpos := (mem_tidsBetween.mp hmem).1
      omega
    · rw [BatchReader.pending, BatchReader.pending, List.drop_eq_getElem_cons hlt]
      rfl
  rw [bitmapFindnexttid]
  by_cases hend : r.result.nextTids.length ≤ r.result.nextTidLoc
  · obtain ⟨r', a', n', hr', hinv, hloc, hfound, hpend⟩ := h.findnexttids hmax hend
    rw [if_pos hend, hr']
    dsimp only
    by_cases hlt : r'.result.nextTidLoc < r'.result.nextTids.length
    · rw [dif_pos hlt]
      obtain ⟨h₁, h₂, h₃⟩ := htake hinv hlt
      exact ⟨_, _, a', n', rfl, h₁, fun h0 => absurd h0 h₂, fun _ => hpend.trans h₃⟩
    · rw [dif_neg hlt]
      exact ⟨r', 0, a', n', rfl, hinv, fun _ => ⟨by omega, by omega, hpend⟩,
        fun h0 => absurd rfl h0⟩
  · have hlt : r.result.nextTidLoc < r.result.nextTids.length := by omega
    rw [if_neg hend]
    dsimp only
    rw [dif_pos hlt]
    obtain ⟨h₁, h₂, h₃⟩ := htake h hlt
    exact ⟨_, _, a, n, rfl, h₁, fun h0 => absurd h0 h₂, fun _ => h₃⟩

end

/-! ## The scan -/

/-- The words of the batches of a scan. -/
def batchEntries (bs : List BMBatchWords) : List Entry := bs.flatMap BMBatchWords.entries

theorem batchEntries_cons (b : BMBatchWords) (bs : List BMBatchWords) :
    batchEntries (b :: bs) = b.entries ++ batchEntries bs := List.flatMap_cons

/-- A batch as it comes from the vectors: it is read from its first word, it has no more words than
there is space for, and no fill word is empty. -/
structure BatchOk (b : BMBatchWords) : Prop where
  startNo : b.startNo = 0
  nwords_le : b.nwords ≤ b.maxNumOfWords
  fills : FillsPos b.entries

/-- A scan of some batches at its start. -/
def startScan (bs : List BMBatchWords) : BatchScan :=
  { done := false
    reader := ⟨bitmapInitBatchwords 0,
      { nextTid := 0, lastScanPos := 0, lastScanWordNo := 0, nextTids := [], nextTidLoc := 0 }⟩
    later := bs }

/-- The scan has the batches `later` still to read. -/
structure TupleInv (all : List Entry) (s : BatchScan) : Prop where
  notDone : s.done = false
  tids : ∃ a n, TidInv ⟨all, batchEntries s.later⟩ a s.reader n
  later : ∀ b ∈ s.later, BatchOk b

/-- The batch of a scan is at its end. -/
def BatchScan.atEnd (s : BatchScan) : Prop :=
  s.reader.words.nwords = 0 ∧ s.reader.result.nextTids.length ≤ s.reader.result.nextTidLoc

/-- **The next batch** continues where the one before has ended; when there is none, all tids have
been handed out. -/
theorem TupleInv.nextBatch {all : List Entry} {s : BatchScan} (h : TupleInv all s)
    (hend : s.atEnd) :
    (s.later = [] → s.reader.pending all = []) ∧
      ∀ b bs, s.later = b :: bs →
        TupleInv all { s.nextBatch with
          reader := ⟨s.nextBatch.reader.words, bitmapBeginIterate s.nextBatch.reader.words⟩ } ∧
        s.reader.pending all =
          BatchReader.pending ⟨s.nextBatch.reader.words,
            bitmapBeginIterate s.nextBatch.reader.words⟩
            all := by
  obtain ⟨a, n, hinv⟩ := h.tids
  have hdrop := hinv.drop_of_end hend.1
  have hpend : s.reader.pending all =
      tidsBetween (bitAt all) s.reader.result.nextTid (numBits all) := by
    rw [BatchReader.pending, List.drop_of_length_le hend.2, List.nil_append]
  have hpos : s.reader.result.lastScanPos = 0 := by
    by_contra h0
    have := (hinv.pos_literal h0).1
    have := hend.1
    omega
  have hn : s.reader.result.nextTid = 64 * n := by
    rw [hinv.nextTid, hpos, Nat.add_zero]
  constructor
  · intro hnil
    have hlen : numBits all = s.reader.result.nextTid + numBits (batchEntries s.later) := hdrop.1
    rw [hnil] at hlen
    rw [hpend, show numBits all = s.reader.result.nextTid from hlen, tidsBetween_self]
  · intro b bs hbs
    have hb : BatchOk b := h.later b (by rw [hbs]; exact List.mem_cons_self)
    rw [BatchScan.nextBatch, hbs]
    refine ⟨⟨h.notDone, ⟨s.reader.result.nextTid, n, ?_⟩, ?_⟩, hpend⟩
    · refine ⟨⟨?_, ?_⟩, hn, Nat.zero_le _, fun h0 => absurd rfl h0, le_rfl,
        (tidsBetween_self _ _).symm⟩
      · rw [hbs, batchEntries_cons, hn] at hdrop
        exact hdrop
      · exact hb.fills
    · intro b' hb'
      exact h.later b' (by rw [hbs]; exact List.mem_cons_of_mem _ hb')

/-- **The rounds of `_bitmap_next`** give the first tid that is still to be handed out, or find that
there is none. -/
theorem TupleInv.nextLoop {all : List Entry} {maxTids fuel : Nat} (hmax : 64 ≤ maxTids)
    {s : BatchScan} (h : TupleInv all s)
    (hfuel : s.later.length + 2 ≤ fuel ∨ s.atEnd ∧ s.later.length + 1 ≤ fuel) :
    ∃ s' o, bitmapNextLoop maxTids fuel s = (s', o) ∧
      (o = none → s.reader.pending all = []) ∧
      ∀ t, o = some t → TupleInv all s' ∧ s.reader.pending all = t :: s'.reader.pending all := by
  induction fuel generalizing s with
  | zero => omega
  | succ fuel ih =>
    -- a batch with words left, or a new one
    have hbatch : ∀ {s' : BatchScan}, TupleInv all s' → s'.later.length + 1 ≤ fuel →
        ∃ s'' o,
          (if s'.done = true then (s', none)
            else if (bitmapFindnexttid maxTids s'.reader).2 = 0 then
              bitmapNextLoop maxTids fuel { s' with
                reader := (bitmapFindnexttid maxTids s'.reader).1 }
            else ({ s' with reader := (bitmapFindnexttid maxTids s'.reader).1 },
              some (bitmapFindnexttid maxTids s'.reader).2)) = (s'', o) ∧
          (o = none → s'.reader.pending all = []) ∧
          ∀ t, o = some t → TupleInv all s'' ∧
            s'.reader.pending all = t :: s''.reader.pending all := by
      intro s' hs' hlen
      obtain ⟨a, n, hinv⟩ := hs'.tids
      obtain ⟨r', t, a', n', hr', hinv', hzero, hpos⟩ := hinv.findnexttid hmax
      rw [hr', if_neg (by simp [hs'.notDone])]
      have hs'' : TupleInv all { s' with reader := r' } := ⟨hs'.notDone, ⟨a', n', hinv'⟩, hs'.later⟩
      dsimp only
      by_cases ht : t = 0
      · obtain ⟨h₁, h₂, h₃⟩ := hzero ht
        rw [if_pos ht]
        obtain ⟨s'', o, hs, hnone, hsome⟩ := ih hs'' (.inr ⟨⟨h₁, h₂⟩, hlen⟩)
        exact ⟨s'', o, hs, fun ho => h₃.trans (hnone ho),
          fun t' ho => ⟨(hsome t' ho).1, h₃.trans (hsome t' ho).2⟩⟩
      · rw [if_neg ht]
        refine ⟨_, _, rfl, fun ho => absurd ho (Option.some_ne_none t), ?_⟩
        rintro t' ⟨⟩
        exact ⟨hs'', hpos ht⟩
    rw [bitmapNextLoop]
    by_cases hend : s.reader.words.nwords = 0 ∧
        s.reader.result.nextTids.length ≤ s.reader.result.nextTidLoc
    · rw [if_pos hend]
      obtain ⟨hnil, hcons⟩ := h.nextBatch hend
      cases hl : s.later with
      | nil =>
        have hdone : s.nextBatch.done = true := by rw [BatchScan.nextBatch, hl]
        dsimp only
        rw [if_pos hdone]
        exact ⟨_, none, rfl, fun _ => hnil hl, fun t ho => absurd ho (Option.some_ne_none t).symm⟩
      | cons b bs =>
        obtain ⟨hs', hpend⟩ := hcons b bs hl
        rw [hpend]
        refine hbatch hs' ?_
        have hlater : s.nextBatch.later = bs := by rw [BatchScan.nextBatch, hl]
        show s.nextBatch.later.length + 1 ≤ fuel
        rw [hl, List.length_cons] at hfuel
        rw [hlater]
        omega
    · rw [if_neg hend]
      have hlen := hfuel.resolve_right fun hf => hend hf.1
      exact hbatch h (by omega)

theorem tupleInv_start {bs : List BMBatchWords} (h : ∀ b ∈ bs, BatchOk b) :
    TupleInv (batchEntries bs) (startScan bs) := by
  refine ⟨rfl, ⟨0, 0, ?_⟩, h⟩
  refine ⟨⟨Segments.Drop.refl _, ?_⟩, rfl, Nat.zero_le _, fun h0 => absurd rfl h0, le_rfl,
    (tidsBetween_self _ _).symm⟩
  intro e he
  exact absurd he List.not_mem_nil

/-- **The tuple interface hands out the tids of the set bits**, in order. -/
theorem tuples_yield {bs : List BMBatchWords} (h : ∀ b ∈ bs, BatchOk b) {maxTids : Nat}
    (hmax : 64 ≤ maxTids) :
    Yields (bitmapNext maxTids) (startScan bs)
      (tidsBetween (bitAt (batchEntries bs)) 0 (numBits (batchEntries bs))) := by
  have hstep : ∀ s s' o, TupleInv (batchEntries bs) s → bitmapNext maxTids s = (s', o) →
      (o = none → s.reader.pending (batchEntries bs) = []) ∧
        ∀ t, o = some t → TupleInv (batchEntries bs) s' ∧
          s.reader.pending (batchEntries bs) = t :: s'.reader.pending (batchEntries bs) := by
    intro s s' o hs hn
    rw [bitmapNext, if_neg (by simp [hs.notDone])] at hn
    obtain ⟨s'', o', hs'', hnone, hsome⟩ := hs.nextLoop hmax (.inl le_rfl)
    obtain ⟨rfl, rfl⟩ := Prod.mk.inj (hs''.symm.trans hn)
    exact ⟨hnone, hsome⟩
  obtain ⟨as, hy, has⟩ := exists_yields (P := fun s as => as = s.reader.pending (batchEntries bs))
    (fun s => (s.reader.pending (batchEntries bs)).length)
    (fun s s' hs hn => ((hstep s s' none hs hn).1 rfl).symm)
    (fun s s' t hs hn => by
      obtain ⟨hs', hp⟩ := (hstep s s' (some t) hs hn).2 t rfl
      refine ⟨hs', by rw [hp]; exact Nat.lt_succ_self _, ?_⟩
      rintro as rfl
      exact hp.symm)
    (tupleInv_start h)
  rw [has] at hy
  exact hy

end Hdb.Bitmap
