import Hdb.Lib.Segments

/-!
# HRL words

A bitmap vector is a sequence of 64-bit content words, each with a header bit. A word whose header
bit is 0 is a literal: its bits, the least significant first. A word whose header bit is 1 is a
fill: its most significant bit repeated, 64 times the number in its other bits.

`BM_HRL_WORD_SIZE` is 64 throughout.
-/

namespace Hdb.Bitmap

abbrev BmHrlWord := BitVec 64

abbrev literalAllZero : BmHrlWord := 0#64

abbrev literalAllOne : BmHrlWord := ~~~0#64

abbrev fillMask : BmHrlWord := ~~~(1#64 <<< 63)

def bmMakeFillWord (bit : Bool) (length : Nat) : BmHrlWord :=
  (if bit then 1#64 else 0#64) <<< 63 ||| BitVec.ofNat 64 length

def fillLength (w : BmHrlWord) : Nat := (w &&& fillMask).toNat

abbrev maxFillLength : Nat := 2 ^ 63 - 1

def getFillBit (w : BmHrlWord) : Bool := w >>> 63 == 1#64

/-- The bit of a header word that belongs to a content word. -/
def wordnoGetHeaderBit (n : Nat) : BmHrlWord := 1#64 <<< (63 - n % 64)

/-- The header bit of the content word `n`. -/
def isFillWord (hwords : Nat → BmHrlWord) (n : Nat) : Bool :=
  hwords (n / 64) &&& wordnoGetHeaderBit n != 0

/-- The number of header words for a number of content words. -/
def bmCalcHWords (cwords : Nat) : Nat := if cwords = 0 then cwords else (cwords - 1) / 64 + 1

/-! ## Fill words -/

theorem fillLength_eq (w : BmHrlWord) : fillLength w = w.toNat % 2 ^ 63 := by
  have hmask : fillMask.toNat = 2 ^ 63 - 1 := by decide
  rw [fillLength, BitVec.toNat_and, hmask, Nat.and_two_pow_sub_one_eq_mod]

theorem getFillBit_eq (w : BmHrlWord) : getFillBit w = decide (2 ^ 63 ≤ w.toNat) := by
  have hw := w.isLt
  have h : (w >>> 63).toNat = w.toNat / 2 ^ 63 := by
    rw [BitVec.toNat_ushiftRight, Nat.shiftRight_eq_div_pow]
  rw [getFillBit, Bool.eq_iff_iff, beq_iff_eq, decide_eq_true_eq, ← BitVec.toNat_inj, h]
  simp only [BitVec.toNat_ofNat]
  omega

theorem toNat_bmMakeFillWord (bit : Bool) {n : Nat} (h : n < 2 ^ 63) :
    (bmMakeFillWord bit n).toNat = (if bit then 2 ^ 63 else 0) + n := by
  have hn : (BitVec.ofNat 64 n).toNat = n := by
    rw [BitVec.toNat_ofNat]
    omega
  cases bit with
  | false =>
    rw [bmMakeFillWord, BitVec.toNat_or, hn]
    simp
  | true =>
    have hone : ((if true = true then 1#64 else 0#64) <<< 63).toNat = 2 ^ 63 := by decide
    rw [bmMakeFillWord, BitVec.toNat_or, hn, hone]
    simpa using (Nat.two_pow_add_eq_or_of_lt h 1).symm

theorem toNat_eq (w : BmHrlWord) :
    w.toNat = (if getFillBit w then 2 ^ 63 else 0) + fillLength w := by
  have hw := w.isLt
  rw [fillLength_eq, getFillBit_eq]
  split_ifs with h <;> simp only [decide_eq_true_eq] at h <;> omega

theorem fillLength_lt (w : BmHrlWord) : fillLength w < 2 ^ 63 := by
  rw [fillLength_eq]
  omega

@[simp] theorem fillLength_make (bit : Bool) {n : Nat} (h : n < 2 ^ 63) :
    fillLength (bmMakeFillWord bit n) = n := by
  rw [fillLength_eq, toNat_bmMakeFillWord bit h]
  cases bit with
  | false => rw [if_neg Bool.false_ne_true, Nat.zero_add, Nat.mod_eq_of_lt h]
  | true => rw [if_pos rfl, Nat.add_mod_left, Nat.mod_eq_of_lt h]

@[simp] theorem getFillBit_make (bit : Bool) {n : Nat} (h : n < 2 ^ 63) :
    getFillBit (bmMakeFillWord bit n) = bit := by
  rw [getFillBit_eq, toNat_bmMakeFillWord bit h]
  cases bit with
  | false => rw [if_neg Bool.false_ne_true, Nat.zero_add, decide_eq_false (by omega)]
  | true => rw [if_pos rfl, decide_eq_true (by omega)]

/-- A fill word is determined by its bit and its length. -/
theorem make_self (w : BmHrlWord) : bmMakeFillWord (getFillBit w) (fillLength w) = w := by
  apply BitVec.eq_of_toNat_eq
  rw [toNat_bmMakeFillWord _ (fillLength_lt w)]
  exact (toNat_eq w).symm

/-- Adding to a fill word adds to its length. -/
theorem make_add (bit : Bool) {m n : Nat} (h : m + n < 2 ^ 63) :
    bmMakeFillWord bit m + BitVec.ofNat 64 n = bmMakeFillWord bit (m + n) := by
  apply BitVec.eq_of_toNat_eq
  rw [BitVec.toNat_add, toNat_bmMakeFillWord bit h, toNat_bmMakeFillWord bit (by omega),
    BitVec.toNat_ofNat]
  cases bit <;> simp <;> omega

theorem make_ne_literalAllOne (bit : Bool) {n : Nat} (h : n < maxFillLength) :
    bmMakeFillWord bit n ≠ literalAllOne := by
  intro heq
  have hmax : maxFillLength = 2 ^ 63 - 1 := rfl
  have hn := congrArg BitVec.toNat heq
  have hone : literalAllOne.toNat = 2 ^ 64 - 1 := by decide
  rw [toNat_bmMakeFillWord bit (by omega), hone] at hn
  cases bit <;> simp at hn <;> omega

/-! ## Header bits -/

theorem getMsbD_wordnoGetHeaderBit (n i : Nat) :
    (wordnoGetHeaderBit n).getMsbD i = decide (i = n % 64) := by
  have hone : ∀ k, (1#64).getMsbD k = decide (k = 63) := by
    intro k
    rw [BitVec.getMsbD, BitVec.getLsbD_one]
    by_cases hk : k < 64
    · simp only [hk, decide_true, Bool.true_and, Nat.zero_lt_succ]
      exact decide_eq_decide.mpr (by omega)
    · simp [hk]
      omega
  rw [wordnoGetHeaderBit, BitVec.getMsbD_shiftLeft, hone]
  exact decide_eq_decide.mpr (by omega)

theorem isFillWord_eq (hwords : Nat → BmHrlWord) (n : Nat) :
    isFillWord hwords n = (hwords (n / 64)).getMsbD (n % 64) := by
  rw [isFillWord, Bool.eq_iff_iff, bne_iff_ne]
  have hn : n % 64 < 64 := Nat.mod_lt n (by decide)
  constructor
  · intro h
    by_contra hbit
    apply h
    apply BitVec.eq_of_getMsbD_eq
    intro i _
    rw [BitVec.getMsbD_and, getMsbD_wordnoGetHeaderBit]
    by_cases hi : i = n % 64
    · subst hi
      simpa using hbit
    · simp [hi]
  · intro h h0
    have := congrArg (fun w => BitVec.getMsbD w (n % 64)) h0
    simp [getMsbD_wordnoGetHeaderBit, h] at this

/-- Setting one header bit. -/
theorem isFillWord_setBit (hwords : Nat → BmHrlWord) (m n : Nat) :
    isFillWord (Function.update hwords (m / 64) (hwords (m / 64) ||| wordnoGetHeaderBit m)) n =
      (isFillWord hwords n || decide (n = m)) := by
  rw [isFillWord_eq, isFillWord_eq, Function.update_apply]
  split_ifs with h
  · rw [BitVec.getMsbD_or, getMsbD_wordnoGetHeaderBit, h]
    congr 1
    exact decide_eq_decide.mpr (by omega)
  · have hne : n ≠ m := by
      intro hnm
      exact h (by rw [hnm])
    simp [hne]

/-- Clearing one header bit. -/
theorem isFillWord_clearBit (hwords : Nat → BmHrlWord) (m n : Nat) :
    isFillWord (Function.update hwords (m / 64) (hwords (m / 64) &&& ~~~(wordnoGetHeaderBit m))) n =
      (isFillWord hwords n && decide (n ≠ m)) := by
  have hr : n % 64 < 64 := Nat.mod_lt n (by decide)
  rw [isFillWord_eq, isFillWord_eq, Function.update_apply]
  split_ifs with h
  · rw [BitVec.getMsbD_and, BitVec.getMsbD_not, getMsbD_wordnoGetHeaderBit, h, decide_eq_true hr,
      Bool.true_and, ← decide_not]
    congr 1
    exact decide_eq_decide.mpr (by omega)
  · have hne : n ≠ m := by
      intro hnm
      exact h (by rw [hnm])
    simp [hne]

/-! ## Entries

A content word with its header bit. -/

abbrev Entry := BmHrlWord × Bool

def entryLen (e : Entry) : Nat := if e.2 then fillLength e.1 * 64 else 64

def entryBit (e : Entry) (p : Nat) : Bool := if e.2 then getFillBit e.1 else e.1.getLsbD p

/-- The number of bits of a sequence of words. -/
abbrev numBits (es : List Entry) : Nat := Segments.total entryLen es

/-- The bit at a position of a sequence of words. -/
abbrev bitAt (es : List Entry) (p : Nat) : Bool := Segments.bitAt entryLen entryBit es p

abbrev SetBit (es es' : List Entry) (k : Nat) : Prop := Segments.SetBit entryLen entryBit es es' k

abbrev SameBits (es es' : List Entry) : Prop := Segments.SameBits entryLen entryBit es es'

@[simp] theorem numBits_append (es es' : List Entry) :
    numBits (es ++ es') = numBits es + numBits es' := Segments.total_append entryLen es es'

@[simp] theorem entryLen_literal (w : BmHrlWord) : entryLen (w, false) = 64 := by
  simp [entryLen]

@[simp] theorem entryLen_fill (w : BmHrlWord) : entryLen (w, true) = fillLength w * 64 := by
  simp [entryLen]

@[simp] theorem entryBit_literal (w : BmHrlWord) (p : Nat) :
    entryBit (w, false) p = w.getLsbD p := by
  simp [entryBit]

@[simp] theorem entryBit_fill (w : BmHrlWord) (p : Nat) : entryBit (w, true) p = getFillBit w := by
  simp [entryBit]

theorem getLsbD_or_bit (w : BmHrlWord) {k : Nat} (hk : k < 64) (p : Nat) :
    (w ||| 1#64 <<< k).getLsbD p = (w.getLsbD p || decide (p = k)) := by
  rw [BitVec.getLsbD_or, BitVec.getLsbD_shiftLeft]
  congr 1
  by_cases hp : p = k
  · subst hp
    simp [hk]
  · by_cases hlt : p < k
    · simp [hlt, hp]
    · have : p - k ≠ 0 := by omega
      simp [hp, this]

/-- Setting a bit of a literal. -/
theorem setBit_literal (w : BmHrlWord) {k : Nat} (hk : k < 64) :
    SetBit [(w, false)] [(w ||| 1#64 <<< k, false)] k := by
  refine ⟨rfl, ?_⟩
  intro p
  simp only [Segments.bitAt_singleton, entryLen_literal, entryBit_literal, getLsbD_or_bit w hk]
  by_cases hp : p < 64
  · simp [hp]
  · have hne : p ≠ k := by omega
    simp [hp, hne]

/-- The literal a fill word of length 1 stands for. -/
def literalOf (bit : Bool) : BmHrlWord := if bit then literalAllOne else literalAllZero

theorem getLsbD_literalAllOne (p : Nat) : literalAllOne.getLsbD p = decide (p < 64) := by
  rw [BitVec.getLsbD_not, BitVec.getLsbD_zero, Bool.not_false, Bool.and_true]

theorem getLsbD_literalOf (bit : Bool) {p : Nat} (hp : p < 64) :
    (literalOf bit).getLsbD p = bit := by
  cases bit with
  | false => rw [literalOf, if_neg Bool.false_ne_true, BitVec.getLsbD_zero]
  | true => rw [literalOf, if_pos rfl, getLsbD_literalAllOne, decide_eq_true hp]

theorem sameBits_literalOf {w : BmHrlWord} (h : fillLength w = 1) :
    SameBits [(w, true)] [(literalOf (getFillBit w), false)] := by
  refine ⟨by simp [h], ?_⟩
  intro p
  simp only [Segments.bitAt_singleton, entryLen_literal, entryLen_fill, entryBit_literal,
    entryBit_fill, h]
  by_cases hp : p < 64
  · rw [getLsbD_literalOf _ hp, Nat.one_mul]
  · rw [Nat.one_mul, decide_eq_false hp, Bool.false_and, Bool.false_and]

theorem sameBits_allOne : SameBits [(literalAllOne, false)] [(bmMakeFillWord true 1, true)] := by
  have hf : fillLength (bmMakeFillWord true 1) = 1 := fillLength_make true (by decide)
  have hg : getFillBit (bmMakeFillWord true 1) = true := getFillBit_make true (by decide)
  refine ⟨by simp [hf], ?_⟩
  intro p
  simp only [Segments.bitAt_singleton, entryLen_literal, entryLen_fill, entryBit_literal,
    entryBit_fill, hf, hg, getLsbD_literalAllOne, Nat.one_mul, Bool.and_true,
    Bool.and_self]

/-- Two fills of the same bit are one. -/
theorem sameBits_merge (bit : Bool) {m n : Nat} (h : m + n < 2 ^ 63) :
    SameBits [(bmMakeFillWord bit m, true), (bmMakeFillWord bit n, true)]
      [(bmMakeFillWord bit (m + n), true)] := by
  have hm : fillLength (bmMakeFillWord bit m) = m := fillLength_make bit (by omega)
  have hn : fillLength (bmMakeFillWord bit n) = n := fillLength_make bit (by omega)
  have hmn : fillLength (bmMakeFillWord bit (m + n)) = m + n := fillLength_make bit h
  refine ⟨by simp [hm, hn, hmn]; omega, ?_⟩
  intro p
  simp only [Segments.bitAt, entryLen_fill, entryBit_fill, hm, hn, hmn,
    getFillBit_make bit h, getFillBit_make bit (show m < 2 ^ 63 by omega),
    getFillBit_make bit (show n < 2 ^ 63 by omega)]
  by_cases h₁ : p < m * 64
  · rw [if_pos (by omega), if_pos h₁]
  · rw [if_neg h₁]
    by_cases h₂ : p - m * 64 < n * 64
    · rw [if_pos (by omega), if_pos h₂]
    · rw [if_neg (by omega), if_neg h₂]

theorem bitAt_zeroFill {n : Nat} (h : n < 2 ^ 63) (p : Nat) :
    bitAt [(bmMakeFillWord false n, true)] p = false := by
  simp [getFillBit_make false h]

theorem bitAt_zeroLiteral (p : Nat) : bitAt [((0 : BmHrlWord), false)] p = false := by
  simp

end Hdb.Bitmap
