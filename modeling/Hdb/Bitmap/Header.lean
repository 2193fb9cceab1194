import Hdb.Bitmap.Word

/-!
# Moving header bits

The header bits of a page or a buffer are an array of words, the first content word at the most
significant bit of the first header word. When words are inserted or appended, header bits move by
an arbitrary number of positions across the boundaries of the header words. Each operation is
described by what it makes of the bit at every position, `isFillWord`.
-/

namespace Hdb.Bitmap

/-! ## The operations -/

/-- The loop of `rshiftHeaderBits` from `wordNo` on. -/
def rshiftLoop (bits : Nat) :
    Nat → Nat → BmHrlWord → (Nat → BmHrlWord) → Nat → BmHrlWord
  | 0, _, _, words => words
  | n + 1, wordNo, shiftingBits, words =>
    rshiftLoop bits n (wordNo + 1) (words wordNo <<< (64 - bits))
      (Function.update words wordNo (words wordNo >>> bits ||| shiftingBits))

/-- Shift the bits of `nwords` words right. The last `bits` of them are lost. -/
def rshiftHeaderBits (words : Nat → BmHrlWord) (nwords bits : Nat) : Nat → BmHrlWord :=
  rshiftLoop bits nwords 0 0 words

/-- The loop of `lshiftHeaderBits` from `wordNo` on. -/
def lshiftLoop (bits : Nat) : Nat → Nat → (Nat → BmHrlWord) → Nat → BmHrlWord
  | 0, _, words => words
  | n + 1, wordNo, words =>
    let shiftingBits := words wordNo >>> (64 - bits)
    let words := Function.update words wordNo (words wordNo <<< bits)
    lshiftLoop bits n (wordNo + 1)
      (if wordNo ≠ 0 then
        Function.update words (wordNo - 1) (words (wordNo - 1) ||| shiftingBits)
      else words)

/-- Shift the bits of `nwords` words left. The first `bits` of them are lost. -/
def lshiftHeaderBits (words : Nat → BmHrlWord) (nwords bits : Nat) : Nat → BmHrlWord :=
  lshiftLoop bits nwords 0 words

/-- The loop of `shiftHeaderBits` for the words after `startWordNo`, the last one first. -/
def shiftHeaderLoop (maxNumOfWords numOfShiftingBits startWordNo : Nat) :
    Nat → (Nat → BmHrlWord) → Nat → BmHrlWord
  | 0, words => words
  | n + 1, words =>
    let wordNo := startWordNo + (n + 1)
    let tmpWord := words wordNo <<< (64 - numOfShiftingBits)
    let words := Function.update words wordNo (words wordNo >>> numOfShiftingBits)
    shiftHeaderLoop maxNumOfWords numOfShiftingBits startWordNo n
      (if wordNo < maxNumOfWords - 1 then
        Function.update words (wordNo + 1) (words (wordNo + 1) ||| tmpWord)
      else words)

/-- Shift the bits from `startLoc` on right by `numOfShiftingBits`. -/
def shiftHeaderBits (words : Nat → BmHrlWord)
    (numOfBits maxNumOfWords startLoc numOfShiftingBits : Nat) : Nat → BmHrlWord :=
  let startWordNo := startLoc / 64
  let endWordNo := (numOfBits - 1) / 64
  let words := shiftHeaderLoop maxNumOfWords numOfShiftingBits startWordNo
    (endWordNo - startWordNo) words
  let tmpWord := (words startWordNo <<< (startLoc % 64)) >>> (startLoc % 64)
  let kept := if 0 < startLoc % 64 then
      (words startWordNo >>> (64 - startLoc % 64)) <<< (64 - startLoc % 64)
    else 0
  let numOfFinalShiftingBits :=
    if 64 - startLoc % 64 < numOfShiftingBits then 64 - startLoc % 64 else numOfShiftingBits
  let words := Function.update words startWordNo (kept ||| tmpWord >>> numOfFinalShiftingBits)
  if startWordNo < maxNumOfWords - 1 then
    Function.update words (startWordNo + 1) (words (startWordNo + 1) |||
      (tmpWord <<< (64 - numOfFinalShiftingBits)) >>> (numOfShiftingBits - numOfFinalShiftingBits))
  else words

/-! ## Bits of updated words -/

theorem isFillWord_update (words : Nat → BmHrlWord) (j : Nat) (w : BmHrlWord) (n : Nat) :
    isFillWord (Function.update words j w) n =
      if n / 64 = j then w.getMsbD (n % 64) else isFillWord words n := by
  rw [isFillWord_eq, isFillWord_eq, Function.update_apply]
  split_ifs <;> rfl

/-- The bit at a position given by word and bit number. -/
theorem isFillWord_at (words : Nat → BmHrlWord) (j : Nat) {i : Nat} (hi : i < 64) :
    isFillWord words (64 * j + i) = (words j).getMsbD i := by
  rw [isFillWord_eq]
  have hdiv : (64 * j + i) / 64 = j := by omega
  have hmod : (64 * j + i) % 64 = i := by omega
  rw [hdiv, hmod]

theorem getMsbD_eq_isFillWord (words : Nat → BmHrlWord) (j : Nat) {i : Nat} (hi : i < 64) :
    (words j).getMsbD i = isFillWord words (64 * j + i) := (isFillWord_at words j hi).symm

theorem getMsbD_ge (w : BmHrlWord) {i : Nat} (hi : 64 ≤ i) : w.getMsbD i = false :=
  BitVec.getMsbD_of_ge w i hi

/-! ## Shifting right -/

theorem rshiftLoop_apply (bits n i : Nat) (c : BmHrlWord) (words : Nat → BmHrlWord) (j : Nat) :
    rshiftLoop bits n i c words j =
      if i ≤ j ∧ j < i + n then
        words j >>> bits ||| (if j = i then c else words (j - 1) <<< (64 - bits))
      else words j := by
  induction n generalizing i c words with
  | zero =>
    rw [rshiftLoop, if_neg (by omega)]
  | succ n ih =>
    rw [rshiftLoop, ih]
    by_cases hj : j = i
    · subst hj
      rw [if_neg (by omega), if_pos (by omega), if_pos rfl, Function.update_self]
    · rw [Function.update_of_ne hj]
      by_cases hin : i + 1 ≤ j ∧ j < i + 1 + n
      · rw [if_pos hin, if_pos (show i ≤ j ∧ j < i + (n + 1) by omega), if_neg hj]
        by_cases hj1 : j = i + 1
        · rw [if_pos hj1, hj1, Nat.add_sub_cancel]
        · have hne : j - 1 ≠ i := by omega
          rw [if_neg hj1, Function.update_of_ne hne]
      · rw [if_neg hin, if_neg (by omega)]

theorem isFillWord_rshift (words : Nat → BmHrlWord) (nwords : Nat) {bits : Nat} (hb : bits < 64)
    (n : Nat) (hn : n < 64 * nwords) :
    isFillWord (rshiftHeaderBits words nwords bits) n =
      (decide (bits ≤ n) && isFillWord words (n - bits)) := by
  have hr : n % 64 < 64 := Nat.mod_lt n (by decide)
  rw [isFillWord_eq, rshiftHeaderBits, rshiftLoop_apply, if_pos (by omega), BitVec.getMsbD_or,
    BitVec.getMsbD_ushiftRight]
  by_cases hlt : n % 64 < bits
  · -- The bit comes from the word before.
    have hz : (decide (n % 64 < 64) && (!decide (n % 64 < bits) &&
        (words (n / 64)).getMsbD (n % 64 - bits))) = false := by simp [hlt]
    rw [hz, Bool.false_or]
    by_cases h0 : n / 64 = 0
    · rw [if_pos h0]
      have hle : ¬ bits ≤ n := by omega
      simp [hle]
    · rw [if_neg h0, BitVec.getMsbD_shiftLeft, getMsbD_eq_isFillWord _ _ (by omega),
        decide_eq_true (by omega), Bool.true_and]
      congr 1
      omega
  · have hc : (if n / 64 = 0 then (0 : BmHrlWord)
        else words (n / 64 - 1) <<< (64 - bits)).getMsbD (n % 64) = false := by
      split_ifs
      · simp
      · rw [BitVec.getMsbD_shiftLeft, getMsbD_ge _ (by omega)]
    rw [hc, Bool.or_false, getMsbD_eq_isFillWord _ _ (by omega), decide_eq_true hr,
      decide_eq_false hlt, decide_eq_true (show bits ≤ n by omega), Bool.not_false, Bool.true_and]
    congr 2
    omega

/-! ## Shifting left -/

theorem lshiftLoop_apply (bits n i : Nat) (words : Nat → BmHrlWord) (j : Nat) :
    lshiftLoop bits n i words j =
      if i ≤ j ∧ j < i + n then
        words j <<< bits ||| (if j + 1 < i + n then words (j + 1) >>> (64 - bits) else 0)
      else if j + 1 = i ∧ 0 < n then words j ||| words i >>> (64 - bits)
      else words j := by
  induction n generalizing i words with
  | zero =>
    rw [lshiftLoop, if_neg (by omega), if_neg (by omega)]
  | succ n ih =>
    rw [lshiftLoop, ih]
    by_cases hj : j = i
    · -- The word just shifted takes the bits of the next one, if there is one.
      subst hj
      rw [if_neg (by omega), if_pos (show j ≤ j ∧ j < j + (n + 1) by omega)]
      have hself :
        (if j ≠ 0 then Function.update (Function.update words j (words j <<< bits)) (j - 1)
          (Function.update words j (words j <<< bits) (j - 1) ||| words j >>> (64 - bits))
          else Function.update words j (words j <<< bits)) j = words j <<< bits := by
        split_ifs with h0
        · rw [Function.update_of_ne (by omega), Function.update_self]
        · rw [Function.update_self]
      have hnext :
        (if j ≠ 0 then Function.update (Function.update words j (words j <<< bits)) (j - 1)
          (Function.update words j (words j <<< bits) (j - 1) ||| words j >>> (64 - bits))
          else Function.update words j (words j <<< bits)) (j + 1) = words (j + 1) := by
        split_ifs with h0
        · rw [Function.update_of_ne (by omega), Function.update_of_ne (by omega)]
        · rw [Function.update_of_ne (by omega)]
      rw [hself, hnext]
      by_cases hn : 0 < n
      · rw [if_pos ⟨rfl, hn⟩, if_pos (by omega)]
      · rw [if_neg (by omega), if_neg (by omega)]
        simp
    · by_cases hj1 : j + 1 = i
      · -- The word before has received its bits in this round.
        have hi0 : i ≠ 0 := by omega
        have hij : i - 1 = j := by omega
        rw [if_pos hi0, hij, Function.update_self, Function.update_of_ne hj,
          if_neg (show ¬ (i + 1 ≤ j ∧ j < i + 1 + n) by omega),
          if_neg (show ¬ (j + 1 = i + 1 ∧ 0 < n) by omega),
          if_neg (show ¬ (i ≤ j ∧ j < i + (n + 1)) by omega), if_pos (by omega)]
      · have hkeep : ∀ m, m ≠ i → m + 1 ≠ i →
            (if i ≠ 0 then Function.update (Function.update words i (words i <<< bits)) (i - 1)
              (Function.update words i (words i <<< bits) (i - 1) ||| words i >>> (64 - bits))
              else Function.update words i (words i <<< bits)) m = words m := by
          intro m hm hm1
          split_ifs with h0
          · rw [Function.update_of_ne (by omega), Function.update_of_ne hm]
          · rw [Function.update_of_ne hm]
        rw [hkeep j hj hj1]
        by_cases hin : i + 1 ≤ j ∧ j < i + 1 + n
        · rw [if_pos hin, if_pos (show i ≤ j ∧ j < i + (n + 1) by omega),
            hkeep (j + 1) (by omega) (by omega)]
          congr 1
          exact if_congr (by omega) rfl rfl
        · rw [if_neg hin, if_neg (by omega), if_neg (by omega), if_neg (by omega)]

theorem isFillWord_lshift (words : Nat → BmHrlWord) (nwords : Nat) {bits : Nat} (hb : bits < 64)
    (n : Nat) (hn : n < 64 * nwords) :
    isFillWord (lshiftHeaderBits words nwords bits) n =
      (decide (n + bits < 64 * nwords) && isFillWord words (n + bits)) := by
  have hr : n % 64 < 64 := Nat.mod_lt n (by decide)
  rw [isFillWord_eq, lshiftHeaderBits, lshiftLoop_apply, if_pos (by omega), BitVec.getMsbD_or,
    BitVec.getMsbD_shiftLeft]
  by_cases hlt : n % 64 + bits < 64
  · have hz : (if n / 64 + 1 < 0 + nwords then words (n / 64 + 1) >>> (64 - bits)
        else 0).getMsbD (n % 64) = false := by
      split_ifs
      · rw [BitVec.getMsbD_ushiftRight]
        have hc : n % 64 < 64 - bits := by omega
        simp [hc]
      · simp
    rw [hz, Bool.or_false, getMsbD_eq_isFillWord _ _ hlt, decide_eq_true (by omega), Bool.true_and]
    congr 1
    omega
  · -- The bit comes from the next word, if there is one.
    have hc : ¬ n % 64 < 64 - bits := by omega
    rw [getMsbD_ge _ (by omega), Bool.false_or]
    by_cases hnext : n / 64 + 1 < 0 + nwords
    · rw [if_pos hnext, BitVec.getMsbD_ushiftRight, decide_eq_true hr, decide_eq_false hc,
        Bool.not_false, Bool.true_and, Bool.true_and, getMsbD_eq_isFillWord _ _ (by omega),
        decide_eq_true (by omega), Bool.true_and]
      congr 1
      omega
    · rw [if_neg hnext, decide_eq_false (by omega), Bool.false_and]
      simp

/-! ## Shifting the bits after a position -/

/-- `words` are `old` with the bits from `loc` on shifted right by `k`, in the first `max` words. -/
def ShiftedFrom (old words : Nat → BmHrlWord) (max loc k : Nat) : Prop :=
  ∀ n < 64 * max, isFillWord words n =
    if n < loc then isFillWord old n else if n < loc + k then false else isFillWord old (n - k)

/-- One round of the loop moves the beginning of the shifted part one word to the left. -/
theorem ShiftedFrom.round {old words : Nat → BmHrlWord} {max k wordNo : Nat} (hk : k ≤ 64)
    (hmax : wordNo < max) (h : ShiftedFrom old words max (64 * (wordNo + 1)) k) :
    ShiftedFrom old
      (if wordNo < max - 1 then
        Function.update (Function.update words wordNo (words wordNo >>> k)) (wordNo + 1)
          (Function.update words wordNo (words wordNo >>> k) (wordNo + 1) |||
            words wordNo <<< (64 - k))
      else Function.update words wordNo (words wordNo >>> k)) max (64 * wordNo) k := by
  intro n hn
  have hr : n % 64 < 64 := Nat.mod_lt n (by decide)
  have hold : ∀ i < 64, (words wordNo).getMsbD i = isFillWord old (64 * wordNo + i) := by
    intro i hi
    rw [getMsbD_eq_isFillWord _ _ hi, h _ (by omega), if_pos (by omega)]
  have hfirst : isFillWord (Function.update words wordNo (words wordNo >>> k)) n =
      if n / 64 = wordNo then
        (if n < 64 * wordNo + k then false else isFillWord old (n - k))
      else isFillWord words n := by
    rw [isFillWord_update]
    by_cases hj : n / 64 = wordNo
    · rw [if_pos hj, if_pos hj, BitVec.getMsbD_ushiftRight, decide_eq_true hr, Bool.true_and]
      by_cases hlt : n % 64 < k
      · rw [if_pos (by omega), decide_eq_true hlt]
        rfl
      · rw [if_neg (by omega), decide_eq_false hlt, hold _ (by omega), Bool.not_false,
          Bool.true_and]
        congr 1
        omega
    · rw [if_neg hj, if_neg hj]
  by_cases hj : n / 64 = wordNo + 1
  · -- The next word takes the bits shifted out.
    rw [if_pos (by omega), isFillWord_update, if_pos hj, BitVec.getMsbD_or,
      BitVec.getMsbD_shiftLeft, ← hj, ← isFillWord_eq, hfirst, if_neg (by omega), h n hn,
      if_neg (by omega), if_neg (show ¬ n < 64 * wordNo by omega),
      if_neg (show ¬ n < 64 * wordNo + k by omega)]
    by_cases hlt : n % 64 < k
    · rw [if_pos (by omega), Bool.false_or, hold _ (by omega)]
      congr 1
      omega
    · rw [if_neg (by omega), getMsbD_ge _ (by omega), Bool.or_false]
  · have hsecond : isFillWord
        (if wordNo < max - 1 then
          Function.update (Function.update words wordNo (words wordNo >>> k)) (wordNo + 1)
            (Function.update words wordNo (words wordNo >>> k) (wordNo + 1) |||
              words wordNo <<< (64 - k))
        else Function.update words wordNo (words wordNo >>> k)) n =
        isFillWord (Function.update words wordNo (words wordNo >>> k)) n := by
      split_ifs
      · rw [isFillWord_update, if_neg hj]
      · rfl
    rw [hsecond, hfirst]
    by_cases hw : n / 64 = wordNo
    · rw [if_pos hw, if_neg (show ¬ n < 64 * wordNo by omega)]
    · rw [if_neg hw, h n hn]
      by_cases hlow : n < 64 * wordNo
      · rw [if_pos (by omega), if_pos hlow]
      · rw [if_neg (by omega), if_neg (by omega), if_neg hlow, if_neg (by omega)]

theorem ShiftedFrom.loop {old words : Nat → BmHrlWord} {max k startWordNo : Nat} (hk : k ≤ 64)
    (n : Nat) (hmax : startWordNo + n < max)
    (h : ShiftedFrom old words max (64 * (startWordNo + n + 1)) k) :
    ShiftedFrom old (shiftHeaderLoop max k startWordNo n words) max (64 * (startWordNo + 1)) k := by
  induction n generalizing words with
  | zero => exact h
  | succ n ih =>
    rw [shiftHeaderLoop]
    exact ih (by omega) (h.round hk hmax)

/-- The bits of a word from `k` on. -/
theorem getMsbD_lowBits (w : BmHrlWord) (k i : Nat) :
    ((w <<< k) >>> k).getMsbD i = if k ≤ i ∧ i < 64 then w.getMsbD i else false := by
  rw [BitVec.getMsbD_ushiftRight, BitVec.getMsbD_shiftLeft]
  by_cases hi : k ≤ i ∧ i < 64
  · rw [if_pos hi, decide_eq_true hi.2, decide_eq_false (by omega), Nat.sub_add_cancel hi.1]
    rfl
  · rw [if_neg hi]
    by_cases hlt : i < k
    · simp [hlt]
    · have hge : ¬ i < 64 := by omega
      simp [hge]

/-- The bits of a word before `k`. -/
theorem getMsbD_highBits (w : BmHrlWord) {k : Nat} (hk : k < 64) {i : Nat} (hi : i < 64) :
    (if 0 < k then (w >>> (64 - k)) <<< (64 - k) else (0 : BmHrlWord)).getMsbD i =
      if i < k then w.getMsbD i else false := by
  by_cases hs : 0 < k
  · rw [if_pos hs, BitVec.getMsbD_shiftLeft, BitVec.getMsbD_ushiftRight,
      decide_eq_false (show ¬ i + (64 - k) < 64 - k by omega), Nat.add_sub_cancel]
    by_cases hlt : i < k
    · rw [if_pos hlt, decide_eq_true (by omega)]
      rfl
    · rw [if_neg hlt, decide_eq_false (by omega)]
      rfl
  · rw [if_neg hs, if_neg (by omega)]
    simp

/-- **Shifting header bits.** The bits from `startLoc` on move right, the ones before stay, and
zeros come in between. -/
theorem shiftHeaderBits_spec {words : Nat → BmHrlWord} {numOfBits max startLoc k : Nat}
    (hk : k ≤ 64) (hstart : startLoc ≤ numOfBits) (hbits : numOfBits ≤ 64 * max)
    (hloc : startLoc < 64 * max)
    (hzero : ∀ n, 64 * ((numOfBits - 1) / 64 + 1) ≤ n → n < 64 * max →
      isFillWord words n = false) :
    ShiftedFrom words (shiftHeaderBits words numOfBits max startLoc k) max startLoc k := by
  -- Before the loop nothing is shifted, and past the last word there is nothing to shift.
  have hinit : ShiftedFrom words words max
      (64 * (startLoc / 64 + ((numOfBits - 1) / 64 - startLoc / 64) + 1)) k := by
    intro n hn
    split_ifs with h₁ h₂
    · rfl
    · exact hzero n (by omega) hn
    · rw [hzero n (by omega) hn, hzero (n - k) (by omega) (by omega)]
  have h := hinit.loop hk _ (by omega)
  generalize hws : shiftHeaderLoop max k (startLoc / 64)
    ((numOfBits - 1) / 64 - startLoc / 64) words = ws at h
  intro n hn
  have hr : n % 64 < 64 := Nat.mod_lt n (by decide)
  have hold : ∀ i < 64, (ws (startLoc / 64)).getMsbD i =
      isFillWord words (64 * (startLoc / 64) + i) := by
    intro i hi
    rw [getMsbD_eq_isFillWord _ _ hi, h _ (by omega), if_pos (by omega)]
  -- The bits of the first word from `startLoc` on.
  have htmp : ∀ i, ((ws (startLoc / 64) <<< (startLoc % 64)) >>> (startLoc % 64)).getMsbD i =
      if startLoc % 64 ≤ i ∧ i < 64 then isFillWord words (64 * (startLoc / 64) + i)
      else false := by
    intro i
    rw [getMsbD_lowBits]
    split_ifs with hi
    · exact hold i hi.2
    · rfl
  -- The bits before `startLoc`.
  have hkept : ∀ i < 64, (if 0 < startLoc % 64 then
        (ws (startLoc / 64) >>> (64 - startLoc % 64)) <<< (64 - startLoc % 64)
      else (0 : BmHrlWord)).getMsbD i =
      if i < startLoc % 64 then isFillWord words (64 * (startLoc / 64) + i) else false := by
    intro i hi
    rw [getMsbD_highBits _ (Nat.mod_lt _ (by decide)) hi, hold i hi]
  simp only [shiftHeaderBits, hws]
  generalize hfin : (if 64 - startLoc % 64 < k then 64 - startLoc % 64 else k) = fin
  have hfin' : (64 - startLoc % 64 < k ∧ fin = 64 - startLoc % 64) ∨
      (k ≤ 64 - startLoc % 64 ∧ fin = k) := by
    split_ifs at hfin <;> omega
  by_cases hj : n / 64 = startLoc / 64
  · have hne : n / 64 ≠ startLoc / 64 + 1 := by omega
    have hfirst : ∀ (w : BmHrlWord), isFillWord (if startLoc / 64 < max - 1 then
        Function.update (Function.update ws (startLoc / 64) w) (startLoc / 64 + 1)
          (Function.update ws (startLoc / 64) w (startLoc / 64 + 1) |||
            ((ws (startLoc / 64) <<< (startLoc % 64)) >>> (startLoc % 64)) <<< (64 - fin) >>>
              (k - fin))
        else Function.update ws (startLoc / 64) w) n = w.getMsbD (n % 64) := by
      intro w
      split_ifs
      · rw [isFillWord_update, if_neg hne, isFillWord_update, if_pos hj]
      · rw [isFillWord_update, if_pos hj]
    rw [hfirst, BitVec.getMsbD_or, hkept _ hr, BitVec.getMsbD_ushiftRight, htmp,
      decide_eq_true hr, Bool.true_and]
    by_cases h₁ : n < startLoc
    · rw [if_pos (show n % 64 < startLoc % 64 by omega), if_pos h₁]
      have hz : (!decide (n % 64 < fin) && (if startLoc % 64 ≤ n % 64 - fin ∧ n % 64 - fin < 64 then
          isFillWord words (64 * (startLoc / 64) + (n % 64 - fin)) else false)) = false := by
        rw [if_neg (by omega), Bool.and_false]
      rw [hz, Bool.or_false]
      congr 1
      omega
    · rw [if_neg (show ¬ n % 64 < startLoc % 64 by omega), if_neg h₁, Bool.false_or]
      by_cases h₂ : n < startLoc + k
      · rw [if_pos h₂]
        by_cases hlt : n % 64 < fin
        · simp [hlt]
        · rw [if_neg (by omega), Bool.and_false]
      · rw [if_neg h₂, if_pos (by omega), decide_eq_false (by omega), Bool.not_false, Bool.true_and]
        congr 1
        omega
  · by_cases hj1 : n / 64 = startLoc / 64 + 1
    · rw [if_pos (show startLoc / 64 < max - 1 by omega), isFillWord_update, if_pos hj1,
        BitVec.getMsbD_or, Function.update_of_ne (by omega), BitVec.getMsbD_ushiftRight,
        BitVec.getMsbD_shiftLeft, htmp, ← hj1, ← isFillWord_eq, h n hn, if_neg (by omega),
        if_neg (show ¬ n < startLoc by omega), decide_eq_true hr, Bool.true_and]
      by_cases h₂ : n < startLoc + k
      · rw [if_pos h₂, if_pos (by omega), Bool.false_or]
        by_cases hlt : n % 64 < k - fin
        · simp [hlt]
        · rw [if_neg (by omega), Bool.and_false]
      · rw [if_neg h₂]
        by_cases hlt : n % 64 < k
        · rw [if_pos (by omega), Bool.false_or, if_pos (by omega), decide_eq_false (by omega),
            Bool.not_false, Bool.true_and]
          congr 1
          omega
        · rw [if_neg (by omega), if_neg (by omega), Bool.and_false, Bool.or_false]
    · have hkeep : ∀ (w w' : BmHrlWord), isFillWord (if startLoc / 64 < max - 1 then
          Function.update (Function.update ws (startLoc / 64) w) (startLoc / 64 + 1) w'
          else Function.update ws (startLoc / 64) w) n = isFillWord ws n := by
        intro w w'
        split_ifs
        · rw [isFillWord_update, if_neg hj1, isFillWord_update, if_neg hj]
        · rw [isFillWord_update, if_neg hj]
      rw [hkeep, h n hn]
      by_cases h₁ : n < startLoc
      · rw [if_pos (by omega), if_pos h₁]
      · rw [if_neg (by omega), if_neg (by omega), if_neg h₁, if_neg (by omega)]

end Hdb.Bitmap
