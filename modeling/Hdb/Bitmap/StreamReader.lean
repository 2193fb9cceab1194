import Hdb.Bitmap.TupleReader

/-!
# The stream interface

A page entry is filled from the words of a block, and the reader is at word `n` of the vector
(`StreamPos`). What the entry shows is the bits of a block up to the reader's position (`Shown`);
that and the position are kept by every step: passing words before the block, skipping zeros to a
later block, and copying a word. When the reader has come to the end of the block, or to the end of
the vector, the entry shows the block, and no bit between the block that was asked for and this one
is set.

The end of a block is computed from the number of the next block in 32 bits. For the last block
number it is 0, every position is past it, and the stream goes on returning the same page.
-/

namespace Hdb.Bitmap

/-! ## Moving the reader -/

/-- The reader of a stream is at word `n`. -/
structure StreamPos (c : Content) (r : BatchReader) (n : Nat) : Prop where
  reads : ReadsAt c n r
  nextTid : r.result.nextTid = 64 * n + 1
  room : r.result.lastScanWordNo + r.words.nwords ≤ r.words.maxNumOfWords

section

variable {c : Content} {n : Nat} {r : BatchReader}

theorem StreamPos.le (h : StreamPos c r n) : 64 * n ≤ numBits c.all := by
  have hlen : numBits c.all = 64 * n + numBits ((r.batch n).entries ++ c.later) := h.reads.drop.1
  omega

theorem StreamPos.pass (h : StreamPos c r n) (hn : 0 < r.words.nwords) {k : Nat}
    (hk : k = 64 * r.len) : StreamPos c (r.pass k) (n + r.len) := by
  have hroom := h.room
  refine ⟨h.reads.pass hn k, ?_, ?_⟩
  · show r.result.nextTid + k = 64 * (n + r.len) + 1
    rw [h.nextTid]
    omega
  · show r.result.lastScanWordNo + 1 + (r.words.nwords - 1) ≤ r.words.maxNumOfWords
    omega

theorem StreamPos.shorten (h : StreamPos c r n) (hn : 0 < r.words.nwords) (hf : r.isFill = true)
    {k t : Nat} (hk : k < fillLength r.word) (ht : t = 64 * (n + k) + 1) :
    StreamPos c ⟨(r.shorten k).words, { (r.shorten k).result with nextTid := t }⟩ (n + k) :=
  ⟨h.reads.shorten hn hf hk rfl rfl, ht, h.room⟩

/-- The literal at the position of the reader. -/
theorem StreamPos.literal (h : StreamPos c r n) (hn : 0 < r.words.nwords) {j : Nat} (hj : j < 64) :
    bitAt c.all (64 * n + j) = r.literal.getLsbD j := by
  have hlen : 0 < r.len := by
    rw [BatchReader.len]
    split_ifs with hf
    · exact h.reads.fill_pos hn hf
    · exact Nat.one_pos
  rw [h.reads.bit hn (by omega), BatchReader.literal]
  cases hf : r.isFill with
  | true =>
    rw [entryBit_fill, if_pos rfl]
    cases getFillBit r.word with
    | true => rw [if_pos rfl, getLsbD_literalAllOne, decide_eq_true hj]
    | false => rw [if_neg Bool.false_ne_true]; exact BitVec.getLsbD_zero.symm
  | false => rw [entryBit_literal, if_neg Bool.false_ne_true]

theorem StreamPos.passOne (h : StreamPos c r n) (hn : 0 < r.words.nwords) :
    StreamPos c r.passOne (n + 1) := by
  rw [BatchReader.passOne]
  cases hf : r.isFill with
  | true =>
    have hpos := h.reads.fill_pos hn hf
    have hlen : fillLength (r.shorten 1).word = fillLength r.word - 1 := by
      have hword : (r.shorten 1).word = r.word - BitVec.ofNat 64 1 := Function.update_self ..
      rw [hword, (fillLength_sub r.word hpos).1]
    rw [if_pos rfl]
    dsimp only
    by_cases h0 : fillLength (r.shorten 1).word = 0
    · have hrlen : r.len = 1 := by
        rw [BatchReader.len, if_pos hf]
        omega
      have hroom := h.room
      rw [if_pos h0]
      refine ⟨hrlen ▸ h.reads.pass_shorten hn rfl rfl 64, ?_, ?_⟩
      · show r.result.nextTid + 64 = 64 * (n + 1) + 1
        rw [h.nextTid]
        omega
      · show r.result.lastScanWordNo + 1 + (r.words.nwords - 1) ≤ r.words.maxNumOfWords
        omega
    · rw [if_neg h0]
      refine h.shorten hn hf (by omega) ?_
      show r.result.nextTid + 64 = _
      rw [h.nextTid]
      omega
  | false =>
    have hrlen : r.len = 1 := by rw [BatchReader.len, if_neg (by simp [hf])]
    rw [if_neg Bool.false_ne_true]
    have hpass := h.pass hn (show 64 = 64 * r.len by omega)
    rw [hrlen] at hpass
    exact hpass

end

/-! ## What an entry shows -/

/-- The bit for the offset number `i + 1`. -/
def PagetableEntry.has (e : PagetableEntry) (i : Nat) : Bool := (e.words (i / 64)).getLsbD (i % 64)

def PagetableEntry.IsEmpty (e : PagetableEntry) : Prop := ∀ i < 65536, e.has i = false

/-- The entry shows the bits before `base` of the block `lb`, and no other bit before `base` is set
from the block `b` on. -/
structure Shown (bit : Nat → Bool) (b lb base : Nat) (e : PagetableEntry) : Prop where
  le : b ≤ lb
  reached : b < lb → 65536 * lb ≤ base
  shows : ∀ i < 65536, e.has i = (bit (65536 * lb + i) && decide (65536 * lb + i < base))
  before : ∀ p, 65536 * b ≤ p → p < 65536 * lb → p < base → bit p = false
  after : ∀ p, 65536 * (lb + 1) ≤ p → p < base → bit p = false

/-- The entry is for the block `lb`, or empty and for a block before. -/
def EntryAt (b lb : Nat) (e : PagetableEntry) : Prop :=
  e.blockno = lb ∨ (b ≤ e.blockno ∧ e.blockno ≤ lb ∧ e.IsEmpty)

theorem EntryAt.blockno_le {b lb : Nat} {e : PagetableEntry} (h : EntryAt b lb e) :
    e.blockno ≤ lb := by
  rcases h with heq | ⟨_, hle, _⟩
  · exact heq.le
  · exact hle

section

variable {bit : Nat → Bool} {b lb base : Nat} {e : PagetableEntry}

/-- Passing bits that are before the block or not set. -/
theorem Shown.advance (h : Shown bit b lb base e) {base' : Nat} (hle : base ≤ base')
    (hz : ∀ p, base ≤ p → p < base' → 65536 * b ≤ p → bit p = false) : Shown bit b lb base' e := by
  have hb := Nat.mul_le_mul_left 65536 h.le
  have hrest : ∀ p, 65536 * b ≤ p → p < base' → base ≤ p → bit p = false :=
    fun p h₁ h₂ h₃ => hz p h₃ h₂ h₁
  refine ⟨h.le, fun hlt => (h.reached hlt).trans hle, ?_, ?_, ?_⟩
  · intro i hi
    rw [h.shows i hi]
    by_cases h₁ : 65536 * lb + i < base
    · rw [decide_eq_true h₁, decide_eq_true (by omega)]
    · by_cases h₂ : 65536 * lb + i < base'
      · rw [hrest _ (by omega) h₂ (by omega), Bool.false_and, Bool.false_and]
      · rw [decide_eq_false h₁, decide_eq_false h₂]
  · intro p h₁ h₂ h₃
    by_cases hp : p < base
    · exact h.before p h₁ h₂ hp
    · exact hrest p h₁ h₃ (by omega)
  · intro p h₁ h₂
    by_cases hp : p < base
    · exact h.after p h₁ hp
    · exact hrest p (by omega) h₂ (by omega)

/-- Nothing before the block has been passed yet. -/
theorem Shown.isEmpty (h : Shown bit b lb base e) (hlt : base ≤ 65536 * lb) : e.IsEmpty := by
  intro i hi
  rw [h.shows i hi, decide_eq_false (by omega), Bool.and_false]

theorem Shown.zeros (h : Shown bit b lb base e) (hempty : e.IsEmpty) {p : Nat}
    (h₁ : 65536 * b ≤ p) (h₂ : p < base) : bit p = false := by
  by_cases hlb : p < 65536 * lb
  · exact h.before p h₁ hlb h₂
  · by_cases hlb' : 65536 * (lb + 1) ≤ p
    · exact h.after p hlb' h₂
    · have hshows := h.shows (p - 65536 * lb) (by omega)
      rw [hempty _ (by omega), show 65536 * lb + (p - 65536 * lb) = p by omega, decide_eq_true h₂,
        Bool.and_true] at hshows
      exact hshows.symm

/-- An empty entry shows every block. -/
theorem Shown.of_isEmpty (h : Shown bit b lb base e) (hempty : e.IsEmpty) {lb' : Nat}
    (hle : b ≤ lb') (hreached : b < lb' → 65536 * lb' ≤ base) : Shown bit b lb' base e := by
  have hb := Nat.mul_le_mul_left 65536 hle
  refine ⟨hle, hreached, ?_, fun p h₁ _ h₃ => h.zeros hempty h₁ h₃,
    fun p h₁ h₂ => h.zeros hempty (by omega) h₂⟩
  intro i hi
  rw [hempty i hi]
  by_cases hlt : 65536 * lb' + i < base
  · rw [h.zeros hempty (by omega) hlt, Bool.false_and]
  · rw [decide_eq_false hlt, Bool.and_false]

/-- The entry shows the block it is for. -/
theorem Shown.toEntry (h : Shown bit b lb base e) (he : EntryAt b lb e) :
    Shown bit b e.blockno base e := by
  rcases he with heq | ⟨hle, hle', hempty⟩
  · rw [heq]
    exact h
  · refine h.of_isEmpty hempty hle fun hlt => ?_
    have hreached := h.reached (by omega)
    omega

end

/-! ## Passing the words before a block -/

section

variable {c : Content} {n b lb : Nat} {r : BatchReader} {e : PagetableEntry}

/-- The bits of a fill of zeros. -/
theorem StreamPos.zeros (h : StreamPos c r n) (hn : 0 < r.words.nwords) (hf : r.isFill = true)
    (hb : getFillBit r.word = false) {p : Nat} (h₁ : 64 * n ≤ p) (h₂ : p < 64 * (n + r.len)) :
    bitAt c.all p = false := by
  have hbit := h.reads.bit hn (show p - 64 * n < 64 * r.len by omega)
  rw [show 64 * n + (p - 64 * n) = p by omega, hf, entryBit_fill, hb] at hbit
  exact hbit

/-- Words before the block that was asked for are passed whatever their bits. -/
theorem Shown.skip {bit : Nat → Bool} {base base' : Nat} (h : Shown bit b lb base e)
    (hle : base ≤ base') (hlt : base < 65536 * lb) (hle' : base' ≤ 65536 * lb) :
    Shown bit b lb base' e := by
  apply h.advance hle
  intro p h₁ h₂ h₃
  have hb := h.le
  have hreached := h.reached
  omega

/-- A reader that is at the block, or at the end of its batch, stays there. -/
theorem skipLoop_stay (h : StreamPos c r n) (hstay : 65536 * lb ≤ 64 * n ∨ r.words.nwords = 0)
    (stop fuel : Nat) : skipLoop (65536 * lb + 1) stop fuel r = (r, false) := by
  cases fuel with
  | zero => rfl
  | succ fuel =>
    rw [skipLoop, if_neg]
    rw [h.nextTid]
    omega

/-- **Passing the words before a block.** Either the reader comes to the block, or to the end of the
batch, or zeros take it past the end of the block. -/
theorem skipLoop_spec {fuel : Nat} (h : StreamPos c r n) (hstop : 64 * n < 65536 * (lb + 1))
    (hfuel : r.words.nwords ≤ fuel) :
    ∃ r' again n', skipLoop (65536 * lb + 1) (65536 * (lb + 1)) fuel r = (r', again) ∧
      StreamPos c r' n' ∧ n ≤ n' ∧ r'.words.nwords ≤ r.words.nwords ∧
      (again = true → r'.words.nwords < r.words.nwords ∧ 65536 * (lb + 1) ≤ 64 * n') ∧
      (again = false → 64 * n' < 65536 * (lb + 1) ∧
        (r'.words.nwords = 0 ∨ 65536 * lb ≤ 64 * n')) ∧
      ∀ b e, Shown (bitAt c.all) b lb (64 * n) e →
        Shown (bitAt c.all) b lb (64 * n') e ∧ (again = true → e.IsEmpty) := by
  induction fuel generalizing r n with
  | zero =>
    refine ⟨r, false, n, rfl, h, le_rfl, le_rfl, fun h0 => absurd h0 (by decide),
      fun _ => ⟨hstop, ?_⟩, fun b e he => ⟨he, fun h0 => absurd h0 (by decide)⟩⟩
    exact .inl (Nat.le_zero.mp hfuel)
  | succ fuel ih =>
    by_cases hgo : 0 < r.words.nwords ∧ 64 * n < 65536 * lb
    swap
    · rw [skipLoop_stay h (by omega)]
      exact ⟨r, false, n, rfl, h, le_rfl, le_rfl, fun h0 => absurd h0 (by decide),
        fun _ => ⟨hstop, by omega⟩, fun b e he => ⟨he, fun h0 => absurd h0 (by decide)⟩⟩
    obtain ⟨hn, hlt⟩ := hgo
    -- passing the current word and going on
    have hnext : ∀ {r₁ : BatchReader} {n₁ : Nat}, StreamPos c r₁ n₁ → n ≤ n₁ →
        64 * n₁ < 65536 * (lb + 1) → r₁.words.nwords ≤ r.words.nwords → r₁.words.nwords ≤ fuel →
        (∀ b e, Shown (bitAt c.all) b lb (64 * n) e → Shown (bitAt c.all) b lb (64 * n₁) e) →
        ∃ r' again n', skipLoop (65536 * lb + 1) (65536 * (lb + 1)) fuel r₁ = (r', again) ∧
          StreamPos c r' n' ∧ n ≤ n' ∧ r'.words.nwords ≤ r.words.nwords ∧
          (again = true → r'.words.nwords < r.words.nwords ∧ 65536 * (lb + 1) ≤ 64 * n') ∧
          (again = false → 64 * n' < 65536 * (lb + 1) ∧
            (r'.words.nwords = 0 ∨ 65536 * lb ≤ 64 * n')) ∧
          ∀ b e, Shown (bitAt c.all) b lb (64 * n) e →
            Shown (bitAt c.all) b lb (64 * n') e ∧ (again = true → e.IsEmpty) := by
      intro r₁ n₁ h₁ hle hs hw hf hshow
      obtain ⟨r', again, n', he, h₁', hle', hw', hyes, hno, hshown⟩ := ih h₁ hs hf
      exact ⟨r', again, n', he, h₁', hle.trans hle', hw'.trans hw,
        fun ha => ⟨(hyes ha).1.trans_le hw, (hyes ha).2⟩, hno,
        fun b e hb => hshown b e (hshow b e hb)⟩
    have hstart : r.result.nextTid < 65536 * lb + 1 := by
      rw [h.nextTid]
      omega
    rw [skipLoop, if_pos ⟨hn, hstart⟩]
    cases hf : r.isFill with
    | true =>
      have hlen := h.reads.fillLen_eq hn (.inl hf)
      have hrlen : r.len = fillLength r.word := by rw [BatchReader.len, if_pos hf]
      have hpass := h.pass hn (show r.fillLen * 64 = 64 * r.len by omega)
      have hnw : (r.pass (r.fillLen * 64)).words.nwords = r.words.nwords - 1 := rfl
      rw [if_pos rfl]
      cases hb : getFillBit r.word with
      | true =>
        rw [if_pos rfl]
        by_cases hall : r.fillLen * 64 ≤ 65536 * lb + 1 - r.result.nextTid
        · rw [if_pos hall]
          rw [h.nextTid] at hall
          refine hnext hpass (by omega) (by omega) (by omega) (by omega) ?_
          intro b e hshow
          exact hshow.skip (by omega) hlt (by omega)
        · -- the fill reaches into the block: what lies before it is cut off
          rw [if_neg hall]
          rw [h.nextTid] at hall
          have hk : (65536 * lb + 1 - r.result.nextTid) / 64 = 1024 * lb - n := by
            rw [h.nextTid]
            omega
          have hshort := h.shorten hn hf (show 1024 * lb - n < fillLength r.word by omega)
            (show 65536 * lb + 1 = 64 * (n + (1024 * lb - n)) + 1 by omega)
          rw [hk]
          dsimp only
          rw [skipLoop_stay hshort (by omega)]
          refine ⟨_, false, n + (1024 * lb - n), rfl, hshort, by omega, le_rfl,
            fun h0 => absurd h0 (by decide), fun _ => ⟨by omega, by omega⟩,
            fun b e hshow => ⟨hshow.skip (by omega) hlt (by omega),
              fun h0 => absurd h0 (by decide)⟩⟩
      | false =>
        rw [if_neg Bool.false_ne_true]
        have hz : ∀ b e, Shown (bitAt c.all) b lb (64 * n) e →
            Shown (bitAt c.all) b lb (64 * (n + r.len)) e := by
          intro b e hshow
          exact hshow.advance (by omega) fun p h₁ h₂ _ => h.zeros hn hf hb h₁ h₂
        by_cases hpast : 65536 * (lb + 1) - r.result.nextTid < r.fillLen * 64
        · rw [if_pos hpast]
          rw [h.nextTid] at hpast
          refine ⟨_, true, n + r.len, rfl, hpass, by omega, by omega, fun _ => ⟨by omega, by omega⟩,
            fun h0 => absurd h0 (by decide), fun b e hshow => ⟨hz b e hshow, fun _ => ?_⟩⟩
          exact hshow.isEmpty hlt.le
        · rw [if_neg hpast]
          rw [h.nextTid] at hpast
          exact hnext hpass (by omega) (by omega) (by omega) (by omega) hz
    | false =>
      have hrlen : r.len = 1 := by rw [BatchReader.len, if_neg (by simp [hf])]
      have hpass := h.pass hn (show 64 = 64 * r.len by omega)
      have hnw : (r.pass 64).words.nwords = r.words.nwords - 1 := rfl
      rw [if_neg Bool.false_ne_true]
      refine hnext hpass (by omega) (by omega) (by omega) (by omega) ?_
      intro b e hshow
      exact hshow.skip (by omega) hlt (by omega)

/-! ## Copying the words of a block -/

/-- Copying the word at the position of the reader. -/
theorem Shown.copy (h : Shown (bitAt c.all) b lb (64 * n) e) (hpos : StreamPos c r n)
    (hn : 0 < r.words.nwords) (h₁ : 65536 * lb ≤ 64 * n) (h₂ : 64 * n < 65536 * (lb + 1)) :
    Shown (bitAt c.all) b lb (64 * (n + 1)) { e with
      words := Function.update e.words (n - 1024 * lb)
        (e.words (n - 1024 * lb) ||| r.literal) } := by
  refine ⟨h.le, fun hlt => (h.reached hlt).trans (by omega), ?_, ?_, ?_⟩
  · intro i hi
    have hshows := h.shows i hi
    rw [PagetableEntry.has] at hshows ⊢
    by_cases hw : i / 64 = n - 1024 * lb
    · have hbit := hpos.literal hn (Nat.mod_lt i (show 64 > 0 by decide))
      rw [show 64 * n + i % 64 = 65536 * lb + i by omega] at hbit
      rw [decide_eq_false (by omega), Bool.and_false] at hshows
      rw [hw] at hshows ⊢
      dsimp only
      rw [Function.update_self, BitVec.getLsbD_or, hshows, Bool.false_or, decide_eq_true (by omega),
        Bool.and_true, hbit]
    · dsimp only
      rw [Function.update_of_ne hw, hshows]
      congr 1
      exact decide_eq_decide.mpr (by omega)
  · intro p hp₁ hp₂ hp₃
    exact h.before p hp₁ hp₂ (by omega)
  · intro p hp₁ hp₂
    omega

/-- **Copying the words of a block** goes on to the end of the block or of the batch. -/
theorem copyLoop_spec (fuel : Nat) (e : PagetableEntry) (h : StreamPos c r n)
    (h₁ : 65536 * lb ≤ 64 * n) (h₂ : 64 * n ≤ 65536 * (lb + 1))
    (hfuel : 1024 * (lb + 1) ≤ fuel + n) :
    ∃ r' e' n', copyLoop (65536 * (lb + 1)) fuel r (n - 1024 * lb) e = (r', e') ∧
      StreamPos c r' n' ∧ n ≤ n' ∧ (r'.words.nwords = 0 ∨ 64 * n' = 65536 * (lb + 1)) ∧
      64 * n' ≤ 65536 * (lb + 1) ∧ e'.blockno = e.blockno ∧ e'.ischunk = e.ischunk ∧
      e'.recheck = e.recheck ∧
      ∀ b, Shown (bitAt c.all) b lb (64 * n) e → Shown (bitAt c.all) b lb (64 * n') e' := by
  induction fuel generalizing r n e with
  | zero =>
    exact ⟨r, e, n, rfl, h, le_rfl, .inr (by omega), h₂, rfl, rfl, rfl, fun b hb => hb⟩
  | succ fuel ih =>
    rw [copyLoop]
    by_cases hgo : 0 < r.words.nwords ∧ r.result.nextTid < 65536 * (lb + 1)
    · rw [if_pos hgo]
      obtain ⟨hn, hlt⟩ := hgo
      rw [h.nextTid] at hlt
      have hsub : n - 1024 * lb + 1 = n + 1 - 1024 * lb := by omega
      rw [hsub]
      obtain ⟨r', e', n', he, hpos, hle, hend, hle', hno, hchunk, hrecheck, hshow⟩ :=
        ih _ (h.passOne hn) (by omega) (by omega) (by omega)
      exact ⟨r', e', n', he, hpos, by omega, hend, hle', hno, hchunk, hrecheck,
        fun b hb => hshow b (hb.copy h hn h₁ (by omega))⟩
    · rw [if_neg hgo]
      rw [h.nextTid] at hgo
      exact ⟨r, e, n, rfl, h, le_rfl, by omega, h₂, rfl, rfl, rfl, fun b hb => hb⟩

/-! ## Getting the next page -/

/-- The block the bit at `n` words is in. -/
theorem blockno_eq {n q : Nat} (h : 64 * n < 65536 * (2 ^ 32 - 1)) (hq : 64 * n / 65536 = q) :
    (64 * n + 1) / bmMaxTuplesPerPage % 2 ^ 32 = q ∧ 65536 * q ≤ 64 * n ∧ q + 1 < 2 ^ 32 := by
  have hdiv : (64 * n + 1) / bmMaxTuplesPerPage = 64 * n / 65536 := by
    simp only [bmMaxTuplesPerPage]
    omega
  rw [hdiv]
  omega

/-- What a call of `wordsGetMatch` gives. -/
structure MatchOk (c : Content) (b lb n : Nat) (e : PagetableEntry) (newentry : Bool)
    (r' : BatchReader) (e' : PagetableEntry) (found : Bool) (n' : Nat) : Prop where
  pos : StreamPos c r' n'
  le : n ≤ n'
  ended : found = false → r'.words.nwords = 0
  ischunk : e'.ischunk = e.ischunk
  recheck : e'.recheck = e.recheck
  blockno_lt : e.blockno < 2 ^ 32 → e'.blockno < 2 ^ 32
  last : 65536 * (2 ^ 32 - 1) ≤ 64 * n → found = true
  shown : lb + 1 < 2 ^ 32 → Shown (bitAt c.all) b lb (64 * n) e → EntryAt b lb e →
    (newentry = true → e.IsEmpty) →
    Shown (bitAt c.all) b e'.blockno (64 * n') e' ∧ e'.blockno + 1 < 2 ^ 32 ∧
      (found = true → 65536 * (e'.blockno + 1) ≤ 64 * n')

theorem StreamPos.rewind (h : StreamPos c r n) (hn : r.words.nwords = 0) :
    StreamPos c r.rewind n := by
  refine ⟨⟨?_, ?_⟩, h.nextTid, ?_⟩
  · have hdrop := h.reads.drop
    have hnil : (r.batch n).entries = [] := entries_nil hn
    have hnil' : (r.rewind.batch n).entries = [] := entries_nil hn
    rw [hnil] at hdrop
    rw [hnil']
    exact hdrop
  · intro e he
    have hnil : (r.rewind.batch n).entries = [] := entries_nil hn
    rw [hnil] at he
    exact absurd he List.not_mem_nil
  · show 0 + r.words.nwords ≤ r.words.maxNumOfWords
    omega

/-- A restart at the block the reader has come to, after zeros. -/
theorem MatchOk.restart {n₁ : Nat} {newentry : Bool} {r' : BatchReader}
    {e' : PagetableEntry} {found : Bool} {n' : Nat}
    (h : MatchOk c b ((64 * n₁ + 1) / bmMaxTuplesPerPage % 2 ^ 32) n₁ e newentry r' e' found n')
    (hn : n ≤ n₁) (hlt : 64 * n₁ < 65536 * (2 ^ 32 - 1)) (hpast : 65536 * (lb + 1) ≤ 64 * n₁)
    (hshown : Shown (bitAt c.all) b lb (64 * n) e → EntryAt b lb e → (newentry = true → e.IsEmpty) →
      Shown (bitAt c.all) b lb (64 * n₁) e ∧ e.IsEmpty) :
    MatchOk c b lb n e newentry r' e' found n' := by
  refine ⟨h.pos, hn.trans h.le, h.ended, h.ischunk, h.recheck, h.blockno_lt,
    fun hl => h.last (hl.trans (by omega)), ?_⟩
  intro _ hshow he hnew
  obtain ⟨hshow₁, hempty⟩ := hshown hshow he hnew
  obtain ⟨hq, hq₁, hq₂⟩ := blockno_eq hlt rfl
  have hb := hshow.le
  have hlbq : lb + 1 ≤ 64 * n₁ / 65536 := by omega
  have hbe : b ≤ e.blockno ∧ e.blockno ≤ lb := by
    rcases he with heq | ⟨h₁, h₂, _⟩
    · omega
    · exact ⟨h₁, h₂⟩
  have hsh := h.shown
  rw [hq] at hsh
  exact hsh hq₂ (hshow₁.of_isEmpty hempty (by omega) fun _ => hq₁)
    (.inr ⟨hbe.1, by omega, hempty⟩) (fun _ => hempty)

/-- A restart in the last block, or after it, finds the entry as it is: the end of the block is
before the reader. -/
theorem MatchOk.restart_last {n₁ fuel : Nat} {newentry : Bool} (h : StreamPos c r n₁)
    (hfuel : 0 < fuel) (hlast : 65536 * (2 ^ 32 - 1) ≤ 64 * n₁) (hn : n ≤ n₁)
    (hpast : 65536 * (lb + 1) ≤ 64 * n₁)
    (hshown : Shown (bitAt c.all) b lb (64 * n) e → EntryAt b lb e →
      (newentry = true → e.IsEmpty) → Shown (bitAt c.all) b lb (64 * n₁) e) :
    wordsGetMatch fuel r ((64 * n₁ + 1) / bmMaxTuplesPerPage % 2 ^ 32) e newentry = (r, e, true) ∧
      MatchOk c b lb n e newentry r e true n₁ := by
  obtain ⟨fuel, rfl⟩ : ∃ k, fuel = k + 1 := ⟨fuel - 1, by omega⟩
  have hend : ((64 * n₁ + 1) / bmMaxTuplesPerPage % 2 ^ 32 + 1) % 2 ^ 32 * bmMaxTuplesPerPage <
      r.result.nextTid := by
    rw [h.nextTid]
    simp only [bmMaxTuplesPerPage]
    omega
  refine ⟨by rw [wordsGetMatch]; exact if_pos hend, h, hn, fun h0 => absurd h0 (by decide),
    rfl, rfl, id, fun _ => rfl, ?_⟩
  intro hlb hshow he hnew
  have hle := he.blockno_le
  exact ⟨(hshown hshow he hnew).toEntry he, by omega, fun _ => by omega⟩

/-- The reader has passed the block, and the entry is as it was. -/
theorem MatchOk.past {n₁ : Nat} {newentry : Bool} (h : StreamPos c r n₁) (hn : n ≤ n₁)
    (hpast : lb + 1 < 2 ^ 32 → 65536 * (lb + 1) ≤ 64 * n₁)
    (hshown : Shown (bitAt c.all) b lb (64 * n) e → Shown (bitAt c.all) b lb (64 * n₁) e) :
    MatchOk c b lb n e newentry r e true n₁ := by
  refine ⟨h, hn, fun h0 => absurd h0 (by decide), rfl, rfl, id, fun _ => rfl, ?_⟩
  intro hlb hshow he _
  have hle := he.blockno_le
  have hpast' := hpast hlb
  exact ⟨(hshown hshow).toEntry he, by omega, fun _ => by omega⟩

/-- The batch has no words left before the end of the block, and the entry is as it was. -/
theorem MatchOk.rewound {n₁ : Nat} {newentry : Bool} (h : StreamPos c r n₁)
    (hnw : r.words.nwords = 0) (hn : n ≤ n₁) (hbefore : 64 * n < 65536 * (2 ^ 32 - 1))
    (hshown : Shown (bitAt c.all) b lb (64 * n) e → Shown (bitAt c.all) b lb (64 * n₁) e) :
    MatchOk c b lb n e newentry r.rewind e false n₁ := by
  refine ⟨h.rewind hnw, hn, fun _ => hnw, rfl, rfl, id, fun _ => by omega, ?_⟩
  intro hlb hshow he _
  have hle := he.blockno_le
  exact ⟨(hshown hshow).toEntry he, by omega, fun h0 => absurd h0 (by decide)⟩

/-- Words of the block have been copied into the entry, up to the end of the block or of the
batch. -/
theorem MatchOk.copied {n₂ : Nat} {newentry : Bool} {e₂ : PagetableEntry} (h : StreamPos c r n₂)
    (hn : n ≤ n₂) (hlb : lb + 1 < 2 ^ 32) (hbefore : 64 * n < 65536 * (lb + 1))
    (hend : r.words.nwords = 0 ∨ 64 * n₂ = 65536 * (lb + 1)) (hchunk : e₂.ischunk = e.ischunk)
    (hrecheck : e₂.recheck = e.recheck)
    (hshown : Shown (bitAt c.all) b lb (64 * n) e → Shown (bitAt c.all) b lb (64 * n₂) e₂) :
    ∃ r' e' found, (if r.words.nwords = 0 then
        (r.rewind, { e₂ with blockno := lb }, !decide (r.result.nextTid < 65536 * (lb + 1)))
      else (r, { e₂ with blockno := lb }, true)) = (r', e', found) ∧
      MatchOk c b lb n e newentry r' e' found n₂ := by
  have hshown' : Shown (bitAt c.all) b lb (64 * n) e →
      Shown (bitAt c.all) b lb (64 * n₂) { e₂ with blockno := lb } := by
    intro hshow
    obtain ⟨h₁, h₂, h₃, h₄, h₅⟩ := hshown hshow
    exact ⟨h₁, h₂, h₃, h₄, h₅⟩
  have hlt : lb < 2 ^ 32 := by omega
  by_cases hnw : r.words.nwords = 0
  · rw [if_pos hnw]
    refine ⟨_, _, _, rfl, h.rewind hnw, hn, fun _ => hnw, hchunk, hrecheck, fun _ => hlt,
      fun _ => by omega, ?_⟩
    intro _ hshow _ _
    refine ⟨hshown' hshow, hlb, ?_⟩
    intro hfound
    rw [h.nextTid, Bool.not_eq_true', decide_eq_false_iff_not] at hfound
    show 65536 * (lb + 1) ≤ 64 * n₂
    omega
  · rw [if_neg hnw]
    have hend' := hend.resolve_left hnw
    refine ⟨_, _, true, rfl, h, hn, fun h0 => absurd h0 (by decide), hchunk, hrecheck,
      fun _ => hlt, fun _ => rfl, ?_⟩
    intro _ hshow _ _
    exact ⟨hshown' hshow, hlb, fun _ => hend'.ge⟩

/-- **Getting the next page.** The entry shows a block up to the position of the reader; if the call
has found a page, the reader is past the block, else it is at the end of its batch. -/
theorem wordsGetMatch_spec {fuel : Nat} (b : Nat) (newentry : Bool) (h : StreamPos c r n)
    (hlb : lb < 2 ^ 32) (hfuel : r.words.nwords < fuel) :
    ∃ r' e' found n', wordsGetMatch fuel r lb e newentry = (r', e', found) ∧
      MatchOk c b lb n e newentry r' e' found n' := by
  induction fuel generalizing r n lb with
  | zero => omega
  | succ fuel ih =>
    rw [wordsGetMatch]
    dsimp only
    by_cases hpast : (lb + 1) % 2 ^ 32 * bmMaxTuplesPerPage < r.result.nextTid
    · rw [if_pos hpast]
      refine ⟨r, e, true, n, rfl, .past h le_rfl ?_ id⟩
      intro hlb'
      rw [h.nextTid, Nat.mod_eq_of_lt hlb', Nat.mul_comm] at hpast
      have hpast' : 65536 * (lb + 1) < 64 * n + 1 := hpast
      omega
    rw [if_neg hpast]
    -- the number of the next block has not overflowed: the end of the block is not 0
    have hlb' : lb + 1 < 2 ^ 32 := by
      by_contra hlast
      have hzero : (lb + 1) % 2 ^ 32 = 0 := by omega
      rw [hzero, Nat.zero_mul, h.nextTid] at hpast
      omega
    have hstop : (lb + 1) % 2 ^ 32 * bmMaxTuplesPerPage = 65536 * (lb + 1) := by
      rw [Nat.mod_eq_of_lt hlb', Nat.mul_comm]
    have hstart : lb * bmMaxTuplesPerPage + 1 = 65536 * lb + 1 := by rw [Nat.mul_comm]
    rw [hstop, h.nextTid] at hpast
    rw [hstop, hstart]
    have hbefore : 64 * n < 65536 * (lb + 1) := by omega
    by_cases hmax : r.words.maxNumOfWords ≤ r.result.lastScanWordNo
    · have hroom := h.room
      have hfound : (!decide (r.result.nextTid < 65536 * (lb + 1))) = false := by
        rw [h.nextTid, decide_eq_true (by omega), Bool.not_true]
      rw [if_pos hmax, hfound]
      exact ⟨_, e, false, n, rfl, .rewound h (by omega) le_rfl (by omega) id⟩
    rw [if_neg hmax]
    obtain ⟨r₁, again, n₁, hskip, hpos₁, hle₁, hnw₁, hyes, hno, hshow₁⟩ :=
      skipLoop_spec h hbefore (le_refl r.words.nwords)
    rw [hskip]
    dsimp only
    cases again with
    | true =>
      obtain ⟨hlt, hpast₁⟩ := hyes rfl
      rw [if_pos rfl, hpos₁.nextTid]
      by_cases hlast : 64 * n₁ < 65536 * (2 ^ 32 - 1)
      · obtain ⟨r', e', found, n', he, hok⟩ := ih hpos₁
          (Nat.mod_lt ((64 * n₁ + 1) / bmMaxTuplesPerPage) (show 2 ^ 32 > 0 by decide)) (by omega)
        refine ⟨r', e', found, n', he, hok.restart hle₁ hlast hpast₁ ?_⟩
        intro hshow _ _
        exact ⟨(hshow₁ b e hshow).1, (hshow₁ b e hshow).2 rfl⟩
      · exact ⟨r₁, e, true, n₁, MatchOk.restart_last hpos₁ (by omega) (Nat.le_of_not_lt hlast) hle₁
          hpast₁ fun hshow _ _ => (hshow₁ b e hshow).1⟩
    | false =>
      obtain ⟨hbefore₁, hend⟩ := hno rfl
      rw [if_neg Bool.false_ne_true]
      by_cases hnw : r₁.words.nwords = 0
      · rw [if_pos hnw]
        exact ⟨_, e, false, n₁, rfl, .rewound hpos₁ hnw hle₁ (by omega)
          fun hshow => (hshow₁ b e hshow).1⟩
      rw [if_neg hnw]
      have hn : 0 < r₁.words.nwords := by omega
      have hin : 65536 * lb ≤ 64 * n₁ := hend.resolve_left hnw
      by_cases hzero : r₁.isFill = true ∧ getFillBit r₁.word = false ∧
          65536 * (lb + 1) - r₁.result.nextTid < r₁.fillLen * 64
      · -- The rest of the block, and maybe more, is a run of zeros.
        rw [if_pos hzero]
        obtain ⟨hf, hb, hlong⟩ := hzero
        have hlen := hpos₁.reads.fillLen_eq hn (.inl hf)
        have hpass := hpos₁.pass hn (show r₁.fillLen * 64 = 64 * r₁.len by omega)
        have hnw₂ : (r₁.pass (r₁.fillLen * 64)).words.nwords = r₁.words.nwords - 1 := rfl
        rw [hpos₁.nextTid] at hlong
        have hpast₂ : 65536 * (lb + 1) ≤ 64 * (n₁ + r₁.len) := by omega
        have hshow₂ : Shown (bitAt c.all) b lb (64 * n) e →
            Shown (bitAt c.all) b lb (64 * (n₁ + r₁.len)) e := by
          intro hshow
          exact (hshow₁ b e hshow).1.advance (by omega) fun p h₁ h₂ _ => hpos₁.zeros hn hf hb h₁ h₂
        cases newentry with
        | true =>
          rw [if_pos rfl, hpass.nextTid]
          by_cases hlast : 64 * (n₁ + r₁.len) < 65536 * (2 ^ 32 - 1)
          · obtain ⟨r', e', found, n', he, hok⟩ := ih hpass
              (Nat.mod_lt ((64 * (n₁ + r₁.len) + 1) / bmMaxTuplesPerPage)
                (show 2 ^ 32 > 0 by decide))
              (by omega)
            refine ⟨r', e', found, n', he, hok.restart (by omega) hlast hpast₂ ?_⟩
            intro hshow _ hnew
            exact ⟨hshow₂ hshow, hnew rfl⟩
          · exact ⟨_, e, true, n₁ + r₁.len, MatchOk.restart_last hpass (by omega)
              (Nat.le_of_not_lt hlast) (by omega) hpast₂ fun hshow _ _ => hshow₂ hshow⟩
        | false =>
          rw [if_neg Bool.false_ne_true]
          exact ⟨_, e, true, n₁ + r₁.len, rfl, .past hpass (by omega) (fun _ => hpast₂) hshow₂⟩
      · rw [if_neg hzero]
        have hword : (r₁.result.nextTid - (65536 * lb + 1)) / 64 = n₁ - 1024 * lb := by
          rw [hpos₁.nextTid]
          omega
        obtain ⟨r₂, e₂, n₂, hcopy, hpos₂, hle₂, hend₂, -, -, hchunk, hrecheck, hshow₂⟩ :=
          copyLoop_spec 1024 e hpos₁ hin hbefore₁.le (by omega)
        rw [hword, hcopy]
        dsimp only
        obtain ⟨r', e', found, heq, hok⟩ := MatchOk.copied hpos₂ (by omega) hlb' hbefore hend₂
          hchunk hrecheck fun hshow => hshow₂ b (hshow₁ b e hshow).1
        exact ⟨r', e', found, n₂, heq, hok⟩

end

/-! ## Pulling a page -/

/-- The scan of a stream is at word `n`. -/
structure ScanAt (all : List Entry) (s : BatchScan) (n : Nat) : Prop where
  pos : StreamPos ⟨all, batchEntries s.later⟩ s.reader n
  later : ∀ b ∈ s.later, BatchOk b
  done : s.done = true → s.reader.words.nwords = 0 ∧ s.later = []

section

variable {all : List Entry} {s : BatchScan} {n b lb : Nat} {e : PagetableEntry}

/-- The rounds of `pullLoop` that are enough: one for each batch, one that finds that there are no
more and one that finds that the scan is over. -/
def BatchScan.rounds (s : BatchScan) : Nat :=
  if s.done then 1 else s.later.length + if s.reader.words.nwords = 0 then 2 else 3

/-- A scan that is over is at the end of the vector. -/
theorem ScanAt.eq_of_done (h : ScanAt all s n) (hdone : s.done = true) : 64 * n = numBits all := by
  obtain ⟨hnw, hlater⟩ := h.done hdone
  have hlen : numBits all = 64 * n + numBits ((s.reader.batch n).entries ++ batchEntries s.later) :=
    h.pos.reads.drop.1
  have hnil : (s.reader.batch n).entries = [] := entries_nil hnw
  rw [hnil, hlater] at hlen
  exact hlen.symm

/-- **The next words** start where the words before have ended. -/
theorem ScanAt.nextbatchwords (h : ScanAt all s n) :
    ∃ s' res, bitmapNextbatchwords s = (s', res) ∧ ScanAt all s' n ∧
      (res = false → s'.done = true) ∧
      ∀ r, r.words.nwords = 0 → res = true → { s' with reader := r }.rounds < s.rounds := by
  rw [bitmapNextbatchwords]
  cases hd : s.done with
  | true =>
    rw [if_pos rfl]
    exact ⟨s, false, rfl, h, fun _ => hd, fun r _ h0 => absurd h0 (by decide)⟩
  | false =>
    rw [if_neg Bool.false_ne_true]
    by_cases hn : 0 < s.reader.words.nwords
    · rw [if_pos hn]
      refine ⟨s, true, rfl, h, fun h0 => absurd h0 (by decide), ?_⟩
      intro r hr _
      simp only [BatchScan.rounds, hd, hr, Bool.false_eq_true, if_false, if_true]
      rw [if_neg (by omega)]
      omega
    · rw [if_neg hn]
      have hn0 : s.reader.words.nwords = 0 := by omega
      have hnil : (s.reader.batch n).entries = [] := entries_nil hn0
      have hdrop := h.pos.reads.drop
      rw [hnil, List.nil_append] at hdrop
      refine ⟨s.nextBatch, true, rfl, ?_, fun h0 => absurd h0 (by decide), ?_⟩
      · cases hl : s.later with
        | nil =>
          rw [BatchScan.nextBatch, hl]
          have hnil' : ∀ w : BMBatchWords, w.nwords = 0 → w.entries = [] :=
            fun w hw => entries_nil hw
          refine ⟨⟨⟨?_, ?_⟩, h.pos.nextTid, Nat.zero_le _⟩, fun b hb => absurd hb List.not_mem_nil,
            fun _ => ⟨rfl, rfl⟩⟩
          · rw [hl] at hdrop
            rw [hnil' _ rfl, List.nil_append]
            exact hdrop
          · intro e he
            rw [hnil' _ rfl] at he
            exact absurd he List.not_mem_nil
        | cons b bs =>
          have hb : BatchOk b := h.later b (by rw [hl]; exact List.mem_cons_self)
          have hnw := hb.nwords_le
          have hentries : (BatchReader.batch ⟨{ b with firstTid := s.reader.result.nextTid },
              { s.reader.result with lastScanWordNo := 0 }⟩ n).entries = b.entries := by
            show entriesFrom b.cwords b.hwords 0 b.nwords =
              entriesFrom b.cwords b.hwords b.startNo b.nwords
            rw [hb.startNo]
          rw [BatchScan.nextBatch, hl]
          refine ⟨⟨⟨?_, ?_⟩, h.pos.nextTid, ?_⟩, ?_, fun h0 => ?_⟩
          · rw [hl] at hdrop
            rw [hentries]
            exact hdrop
          · rw [hentries]
            exact hb.fills
          · show 0 + b.nwords ≤ b.maxNumOfWords
            omega
          · intro b' hb'
            exact h.later b' (by rw [hl]; exact List.mem_cons_of_mem _ hb')
          · rw [hd] at h0
            exact absurd h0 (by decide)
      · intro r hr _
        cases hl : s.later with
        | nil => simp [BatchScan.rounds, BatchScan.nextBatch, hl, hd, hn0]
        | cons b bs =>
          simp only [BatchScan.rounds, BatchScan.nextBatch, hl, hd, hn0, hr, Bool.false_eq_true,
            if_false, if_true, List.length_cons]
          omega

/-- There are no words left at the end of the vector. -/
theorem StreamPos.nwords_eq_zero {c : Content} {r : BatchReader} (h : StreamPos c r n)
    (hend : 64 * n = numBits c.all) : r.words.nwords = 0 := by
  by_contra hn
  have hn' : 0 < r.words.nwords := by omega
  have hlen : numBits c.all = 64 * n + numBits ((r.batch n).entries ++ c.later) := h.reads.drop.1
  have hcons : (r.batch n).entries = (r.word, r.isFill) :: (r.batch n).tail := entries_cons hn'
  have hword : numBits ((r.word, r.isFill) :: (r.batch n).tail) =
      entryLen (r.word, r.isFill) + numBits (r.batch n).tail := Segments.total_cons ..
  have hpos : 0 < entryLen (r.word, r.isFill) := by
    cases hf : r.isFill with
    | true =>
      have hfill := h.reads.fill_pos hn' hf
      rw [entryLen_fill]
      omega
    | false => rw [entryLen_literal]; decide
  rw [numBits_append, hcons, hword] at hlen
  omega

/-- What the rounds of `pullLoop` give. -/
structure PullOk (all : List Entry) (b lb n : Nat) (e : PagetableEntry) (newentry : Bool)
    (s' : BatchScan) (e' : PagetableEntry) (isDone : Bool) (n' : Nat) : Prop where
  scan : ScanAt all s' n'
  le : n ≤ n'
  ischunk : e'.ischunk = e.ischunk
  recheck : e'.recheck = e.recheck
  blockno_lt : e'.blockno < 2 ^ 32
  done : isDone = true → 64 * n' = numBits all ∧ numBits all < 65536 * (2 ^ 32 - 1)
  shown : lb + 1 < 2 ^ 32 → e.blockno = lb → Shown (bitAt all) b lb (64 * n) e →
    (newentry = true → e.IsEmpty) →
    Shown (bitAt all) b e'.blockno (64 * n') e' ∧ e'.blockno + 1 < 2 ^ 32 ∧
      (isDone = false → 65536 * (e'.blockno + 1) ≤ 64 * n')

/-- **The rounds of `pull_stream`** fill the entry of a block to its end, or to the end of the
vector. -/
theorem pullLoop_spec (fuel b : Nat) (newentry : Bool) (h : ScanAt all s n) (hlb : lb < 2 ^ 32)
    (he : e.blockno < 2 ^ 32) (hfuel : s.rounds ≤ fuel) :
    ∃ s' e' isDone n', pullLoop fuel s lb e newentry = (s', e', isDone) ∧
      PullOk all b lb n e newentry s' e' isDone n' := by
  induction fuel generalizing s n lb e newentry with
  | zero =>
    rw [BatchScan.rounds] at hfuel
    split_ifs at hfuel <;> omega
  | succ fuel ih =>
    obtain ⟨s₁, res, hnext, h₁, hres, hrounds⟩ := h.nextbatchwords
    obtain ⟨r', e', found, n', hmatch, hok⟩ := wordsGetMatch_spec b newentry (e := e) h₁.pos hlb
      (Nat.lt_succ_self s₁.reader.words.nwords)
    have hscan : ScanAt all { s₁ with reader := r' } n' := by
      refine ⟨hok.pos, h₁.later, fun hd => ⟨hok.pos.nwords_eq_zero ?_, (h₁.done hd).2⟩⟩
      have heq := h₁.eq_of_done hd
      have hle := hok.pos.le
      have hle' := hok.le
      show 64 * n' = numBits all
      have hle'' : 64 * n' ≤ numBits all := hle
      omega
    rw [pullLoop, hnext]
    dsimp only
    rw [hmatch]
    dsimp only
    cases found with
    | true =>
      rw [if_pos rfl]
      refine ⟨_, e', false, n', rfl, hscan, hok.le, hok.ischunk, hok.recheck, hok.blockno_lt he,
        fun h0 => absurd h0 (by decide), ?_⟩
      intro hlb' heq hshow hnew
      obtain ⟨h₂, h₃, h₄⟩ := hok.shown hlb' hshow (.inl heq) hnew
      exact ⟨h₂, h₃, fun _ => h₄ rfl⟩
    | false =>
      rw [if_neg Bool.false_ne_true]
      cases res with
      | false =>
        have hdone := hscan.eq_of_done (hres rfl)
        have heq := h₁.eq_of_done (hres rfl)
        rw [Bool.not_false, if_pos rfl]
        refine ⟨_, e', true, n', rfl, hscan, hok.le, hok.ischunk, hok.recheck, hok.blockno_lt he,
          fun _ => ⟨hdone, ?_⟩, ?_⟩
        · by_contra hbits
          exact Bool.false_ne_true (hok.last (by omega))
        · intro hlb' heq hshow hnew
          obtain ⟨h₂, h₃, _⟩ := hok.shown hlb' hshow (.inl heq) hnew
          exact ⟨h₂, h₃, fun h0 => absurd h0 (by decide)⟩
      | true =>
        rw [Bool.not_true, if_neg Bool.false_ne_true]
        have hnw := hok.ended rfl
        have hlt := hrounds r' hnw rfl
        obtain ⟨s'', e'', isDone, n'', heq, hok'⟩ :=
          ih false hscan (hok.blockno_lt he) (hok.blockno_lt he) (by omega)
        refine ⟨s'', e'', isDone, n'', heq, hok'.scan, hok.le.trans hok'.le,
          hok'.ischunk.trans hok.ischunk, hok'.recheck.trans hok.recheck, hok'.blockno_lt,
          hok'.done, ?_⟩
        intro hlb' heq hshow hnew
        obtain ⟨h₂, h₃, _⟩ := hok.shown hlb' hshow (.inl heq) hnew
        exact hok'.shown h₃ rfl h₂ (fun h0 => absurd h0 (by decide))

end

/-! ## The stream -/

/-- An entry that holds nothing. -/
def zeroEntry : PagetableEntry := ⟨0, false, false, fun _ => 0⟩

/-- An iterator over the stream for some batches. The first batch has been read when the stream is
made. -/
def startStream (bs : List BMBatchWords) : StreamIterator :=
  let s := (startScan bs).nextBatch
  ⟨0, some ⟨{ s with reader := ⟨s.reader.words, { s.reader.result with nextTid := 1 }⟩ },
    none, false⟩⟩

/-- The entry shows exactly the bits of its block. -/
structure ExactPage (bit : Nat → Bool) (e : PagetableEntry) : Prop where
  ischunk : e.ischunk = false
  recheck : e.recheck = false
  has : ∀ i < 65536, e.has i = bit (65536 * e.blockno + i)

/-- A stream whose scan is at word `n`, and that was last asked for the block `asked`. -/
structure StreamAt (all : List Entry) (asked : Nat) (so : BMStreamOpaque) (n : Nat) : Prop where
  scan : ScanAt all so.scan n
  done : so.isDone = true → 64 * n = numBits all
  start : so.entry = none → n = 0 ∧ so.isDone = false
  exact : ∀ e, so.entry = some e → ExactPage (bitAt all) e ∧ asked ≤ e.blockno
  reached : ∀ e, so.entry = some e → asked < e.blockno → 65536 * e.blockno ≤ 64 * n
  before : ∀ e, so.entry = some e → ∀ p, 65536 * asked ≤ p → p < 65536 * e.blockno →
    bitAt all p = false
  after : ∀ e, so.entry = some e → ∀ p, 65536 * (e.blockno + 1) ≤ p → p < 64 * n →
    bitAt all p = false
  past : ∀ e, so.entry = some e → so.isDone = false → 65536 * (e.blockno + 1) ≤ 64 * n

section

variable {all : List Entry} {it : StreamIterator} {so : BMStreamOpaque} {asked n : Nat}

theorem has_zero (b i : Nat) : PagetableEntry.has { zeroEntry with blockno := b } i = false :=
  BitVec.getLsbD_zero

/-- **A page that is not cached** comes from the scan: it is at or after the block asked for, exact,
and the first one there with a bit set. -/
theorem StreamAt.pullNext (h : StreamAt all asked so n) (hnext : it.nextblock + 1 < 2 ^ 32)
    (hentry : ∀ e, so.entry = some e → e.blockno < it.nextblock) :
    ∃ it' so' e n', pullStream.pullNext it so zeroEntry = (it', some e) ∧ it'.stream = some so' ∧
      so'.entry = some e ∧ StreamAt all it.nextblock so' n' ∧ e.blockno + 1 < 2 ^ 32 ∧
      it'.nextblock =
        if e.blockno + 1 < 64 * n' / 65536 then 64 * n' / 65536 % 2 ^ 32 else e.blockno + 1 := by
  obtain ⟨s', e, isDone, n', hpull, hok⟩ :=
    pullLoop_spec (so.scan.later.length + 3) it.nextblock true
    (e := { zeroEntry with blockno := it.nextblock }) h.scan
    (show it.nextblock < 2 ^ 32 by omega) (show it.nextblock < 2 ^ 32 by omega)
    (by rw [BatchScan.rounds]; split_ifs <;> omega)
  -- no bit between the block asked for and the position of the scan is set
  have hzero : ∀ p, 65536 * it.nextblock ≤ p → p < 64 * n → bitAt all p = false := by
    intro p h₁ h₂
    cases he : so.entry with
    | none =>
      have := (h.start he).1
      omega
    | some e₀ =>
      have := hentry e₀ he
      exact h.after e₀ he p (by omega) h₂
  have hshown : Shown (bitAt all) it.nextblock it.nextblock (64 * n)
      { zeroEntry with blockno := it.nextblock } := by
    refine ⟨le_rfl, fun h0 => absurd h0 (lt_irrefl _), ?_, fun p h₁ h₂ _ => by omega,
      fun p h₁ h₂ => hzero p (by omega) h₂⟩
    intro i _
    rw [has_zero]
    by_cases hlt : 65536 * it.nextblock + i < 64 * n
    · rw [hzero _ (Nat.le_add_right _ _) hlt, Bool.false_and]
    · rw [decide_eq_false hlt, Bool.and_false]
  obtain ⟨hsh, hlast, hpast⟩ := hok.shown hnext rfl hshown fun _ i _ => has_zero _ i
  have hfull : ∀ p, p < 65536 * (e.blockno + 1) → 64 * n' ≤ p → bitAt all p = false := by
    intro p h₁ h₂
    cases isDone with
    | false =>
      have := hpast rfl
      omega
    | true =>
      apply Segments.bitAt_eq_false
      have hend : 64 * n' = Segments.total entryLen all := (hok.done rfl).1
      omega
  have hexact : ExactPage (bitAt all) e := by
    refine ⟨hok.ischunk, hok.recheck, ?_⟩
    intro i hi
    rw [hsh.shows i hi]
    by_cases hlt : 65536 * e.blockno + i < 64 * n'
    · rw [decide_eq_true hlt, Bool.and_true]
    · rw [decide_eq_false hlt, Bool.and_false, hfull _ (by omega) (by omega)]
  have hat : StreamAt all it.nextblock ⟨s', some e, isDone⟩ n' := by
    refine ⟨hok.scan, fun hd => (hok.done hd).1,
      fun h0 => absurd h0 (Option.some_ne_none e), ?_, ?_,
      ?_, ?_, ?_⟩
    · rintro e' ⟨⟩
      exact ⟨hexact, hsh.le⟩
    · rintro e' ⟨⟩ hlt
      exact hsh.reached hlt
    · rintro e' ⟨⟩ p h₁ h₂
      by_cases hlt : p < 64 * n'
      · exact hsh.before p h₁ h₂ hlt
      · exact hfull p (by omega) (by omega)
    · rintro e' ⟨⟩ p h₁ h₂
      exact hsh.after p h₁ h₂
    · rintro e' ⟨⟩ hd
      exact hpast hd
  have hdiv : s'.reader.result.nextTid / bmMaxTuplesPerPage = 64 * n' / 65536 := by
    rw [hok.scan.pos.nextTid]
    simp only [bmMaxTuplesPerPage]
    omega
  have hmod : (e.blockno + 1) % 2 ^ 32 = e.blockno + 1 := Nat.mod_eq_of_lt hlast
  rw [pullStream.pullNext, hpull]
  dsimp only
  rw [hdiv, hmod]
  exact ⟨_, _, e, n', rfl, rfl, rfl, hat, hlast, rfl⟩

/-- The block that the stream asks for next, if the vector ends before the last block. -/
theorem StreamAt.nextblock_lt {e : PagetableEntry} (h : StreamAt all asked so n)
    (hbits : numBits all < 65536 * (2 ^ 32 - 1)) (he : so.entry = some e)
    (hlast : e.blockno + 1 < 2 ^ 32) {nextblock : Nat}
    (hnext : nextblock =
      if e.blockno + 1 < 64 * n / 65536 then 64 * n / 65536 % 2 ^ 32 else e.blockno + 1) :
    (nextblock = e.blockno + 1 ∨ 65536 * nextblock ≤ 64 * n) ∧ e.blockno < nextblock ∧
      nextblock < 2 ^ 32 ∧ (so.isDone = false → nextblock + 1 < 2 ^ 32) := by
  have hle : 64 * n ≤ numBits all := h.scan.pos.le
  have hpast := h.past e he
  split_ifs at hnext with hlt
  · exact ⟨by omega, by omega, by omega, fun _ => by omega⟩
  · refine ⟨by omega, by omega, by omega, fun hd => ?_⟩
    have := hpast hd
    omega

end

theorem scanAt_start {bs : List BMBatchWords} (h : ∀ b ∈ bs, BatchOk b) :
    ∃ so, (startStream bs).stream = some so ∧ so.entry = none ∧ so.isDone = false ∧
      ScanAt (batchEntries bs) so.scan 0 := by
  refine ⟨_, rfl, rfl, rfl, ?_⟩
  cases bs with
  | nil =>
    refine ⟨⟨⟨Segments.Drop.refl _, fun e he => absurd he List.not_mem_nil⟩, rfl, Nat.zero_le _⟩,
      fun b hb => absurd hb List.not_mem_nil, fun _ => ⟨rfl, rfl⟩⟩
  | cons b bs =>
    have hb := h b List.mem_cons_self
    have hnw := hb.nwords_le
    have hentries : entriesFrom b.cwords b.hwords 0 b.nwords = b.entries := by
      rw [BMBatchWords.entries, hb.startNo]
    refine ⟨⟨⟨?_, ?_⟩, rfl, ?_⟩, fun b' hb' => h b' (List.mem_cons_of_mem b hb'),
      fun h0 => absurd h0 Bool.false_ne_true⟩
    · show Drop (batchEntries (b :: bs))
        (entriesFrom b.cwords b.hwords 0 b.nwords ++ batchEntries bs) 0
      rw [hentries, batchEntries_cons]
      exact Segments.Drop.refl _
    · show FillsPos (entriesFrom b.cwords b.hwords 0 b.nwords)
      rw [hentries]
      exact hb.fills
    · show 0 + b.nwords ≤ b.maxNumOfWords
      omega

theorem streamAt_start {bs : List BMBatchWords} (h : ∀ b ∈ bs, BatchOk b) :
    ∃ so, (startStream bs).stream = some so ∧ so.entry = none ∧
      StreamAt (batchEntries bs) 0 so 0 := by
  obtain ⟨so, hso, hentry, hdone, hscan⟩ := scanAt_start h
  refine ⟨so, hso, hentry, hscan, ?_, fun _ => ⟨rfl, hdone⟩, ?_, ?_, ?_, ?_, ?_⟩
  · intro hd
    rw [hdone] at hd
    exact absurd hd Bool.false_ne_true
  all_goals
    intro e he
    rw [hentry] at he
    exact absurd he (Option.some_ne_none e).symm

end Hdb.Bitmap
