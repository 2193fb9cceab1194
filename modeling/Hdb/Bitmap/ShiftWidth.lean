import Hdb.Bitmap.Page

/-!
# Shifts by the width of a word

`insertNewwords` takes up to 64 new words, and `shiftHeaderBits` shifts header words of 64 bits by
their number. A shift by the width of the type is not defined in C; machines that take the amount
modulo the width leave the word as it is. The two functions are given again here with shifts that
may be undefined. Without a shift by 64 they agree with `shiftHeaderBits` and `insertNewwords`,
for which such a shift leaves nothing (`cShifts_insertNewwords`).
-/

namespace Hdb.Bitmap

/-- The shifts of words by an amount, `none` where they are not defined. -/
structure Shifts where
  shl : BmHrlWord → Nat → Option BmHrlWord
  shr : BmHrlWord → Nat → Option BmHrlWord

/-- The shifts of the language: by less than the width. -/
def cShifts : Shifts where
  shl w n := if n < 64 then some (w <<< n) else none
  shr w n := if n < 64 then some (w >>> n) else none

/-- The shifts of a machine that uses the low bits of the amount. -/
def maskedShifts : Shifts where
  shl w n := some (w <<< (n % 64))
  shr w n := some (w >>> (n % 64))

namespace Shifts

variable (S : Shifts)

/-! ## The functions with these shifts -/

def shiftHeaderLoop (maxNumOfWords numOfShiftingBits startWordNo : Nat) :
    Nat → (Nat → BmHrlWord) → Option (Nat → BmHrlWord)
  | 0, words => some words
  | n + 1, words =>
    let wordNo := startWordNo + (n + 1)
    (S.shl (words wordNo) (64 - numOfShiftingBits)).bind fun tmpWord =>
      (S.shr (words wordNo) numOfShiftingBits).bind fun shifted =>
        let words := Function.update words wordNo shifted
        shiftHeaderLoop maxNumOfWords numOfShiftingBits startWordNo n
          (if wordNo < maxNumOfWords - 1 then
            Function.update words (wordNo + 1) (words (wordNo + 1) ||| tmpWord)
          else words)

/-- The first `n` bits of a word. -/
def firstBits (w : BmHrlWord) (n : Nat) : Option BmHrlWord :=
  if 0 < n then (S.shr w (64 - n)).bind fun low => S.shl low (64 - n) else some 0

/-- Put the bits shifted out of a word into the next one. -/
def shiftIntoNext (maxNumOfWords numOfShiftingBits startWordNo numOfFinalShiftingBits : Nat)
    (tmpWord : BmHrlWord) (words : Nat → BmHrlWord) : Option (Nat → BmHrlWord) :=
  if startWordNo < maxNumOfWords - 1 then
    (S.shl tmpWord (64 - numOfFinalShiftingBits)).bind fun high =>
      (S.shr high (numOfShiftingBits - numOfFinalShiftingBits)).map fun tmpWord =>
        Function.update words (startWordNo + 1) (words (startWordNo + 1) ||| tmpWord)
  else some words

def shiftHeaderBits (words : Nat → BmHrlWord)
    (numOfBits maxNumOfWords startLoc numOfShiftingBits : Nat) : Option (Nat → BmHrlWord) :=
  let startWordNo := startLoc / 64
  let endWordNo := (numOfBits - 1) / 64
  (S.shiftHeaderLoop maxNumOfWords numOfShiftingBits startWordNo (endWordNo - startWordNo)
    words).bind fun words =>
  (S.shl (words startWordNo) (startLoc % 64)).bind fun high =>
  (S.shr high (startLoc % 64)).bind fun tmpWord =>
  (S.firstBits (words startWordNo) (startLoc % 64)).bind fun kept =>
  let numOfFinalShiftingBits :=
    if 64 - startLoc % 64 < numOfShiftingBits then 64 - startLoc % 64 else numOfShiftingBits
  (S.shr tmpWord numOfFinalShiftingBits).bind fun shifted =>
  S.shiftIntoNext maxNumOfWords numOfShiftingBits startWordNo numOfFinalShiftingBits tmpWord
    (Function.update words startWordNo (kept ||| shifted))

def insertNewwords (L : PageLayout) (words : BMTIDBuffer) (insertPos : Nat)
    (newWords wordsLeft : BMTIDBuffer) : Option (BMTIDBuffer × BMTIDBuffer) :=
  let wordsLeft := { wordsLeft with curword := 0 }
  if words.curword = 0 then
    some ({ words with
        cwords := memcpy words.cwords newWords.cwords newWords.curword
        hwords := memcpy words.hwords newWords.hwords (bmCalcHWords newWords.curword)
        curword := newWords.curword },
      wordsLeft)
  else if insertPos = words.numCwords then
    some (words,
      { wordsLeft with
        cwords := memcpy wordsLeft.cwords newWords.cwords newWords.curword
        hwords := memcpy wordsLeft.hwords newWords.hwords (bmCalcHWords newWords.curword)
        curword := newWords.curword })
  else
    let left := if words.numCwords < words.curword + newWords.curword then
      words.curword + newWords.curword - words.numCwords else 0
    let wordsLeft := { wordsLeft with
      curword := left
      hwords := fun i => if i < L.bmNumOfHeaderWords then 0 else wordsLeft.hwords i }
    let (words₁, wordsLeft₁) := moveWordsLoop words.numCwords newWords.curword insertPos
      (words.curword - insertPos) (words, wordsLeft)
    let (words₂, wordsLeft₂) := newWordsLoop words.numCwords insertPos newWords newWords.curword 0
      (words₁, wordsLeft₁)
    (S.shiftHeaderBits words₂.hwords words₂.curword L.bmNumOfHeaderWords insertPos
      newWords.curword).map fun hwords =>
        ({ words₂ with
            hwords := newHeaderLoop insertPos newWords.hwords
              (min newWords.curword (words.numCwords - insertPos)) insertPos hwords
            curword := words₂.curword + (newWords.curword - left) },
          wordsLeft₂)

end Shifts

/-! ## When every shift is defined -/

/-- Shifting `numOfBits` bits from `startLoc` on by `k` never shifts a word by 64: it is fewer
than 64, or only bits inside one word move. -/
def NoWidthShift (numOfBits startLoc k : Nat) : Prop :=
  k < 64 ∨ (startLoc % 64 ≠ 0 ∧ (numOfBits - 1) / 64 ≤ startLoc / 64)

instance (numOfBits startLoc k : Nat) : Decidable (NoWidthShift numOfBits startLoc k) := by
  unfold NoWidthShift
  infer_instance

theorem cShifts_shl {w : BmHrlWord} {n : Nat} (h : n < 64) : cShifts.shl w n = some (w <<< n) :=
  if_pos h

theorem cShifts_shr {w : BmHrlWord} {n : Nat} (h : n < 64) : cShifts.shr w n = some (w >>> n) :=
  if_pos h

theorem cShifts_shr_ge {w : BmHrlWord} {n : Nat} (h : 64 ≤ n) : cShifts.shr w n = none :=
  if_neg (by omega)

theorem cShifts_shiftHeaderLoop (max startWordNo : Nat) {k : Nat} (hk : 0 < k) (hk64 : k ≤ 64)
    (n : Nat) (words : Nat → BmHrlWord) :
    cShifts.shiftHeaderLoop max k startWordNo n words =
      if k < 64 ∨ n = 0 then some (shiftHeaderLoop max k startWordNo n words) else none := by
  induction n generalizing words with
  | zero => rw [if_pos (Or.inr rfl)]; rfl
  | succ n ih =>
    have hshl : 64 - k < 64 := by omega
    rw [Shifts.shiftHeaderLoop, cShifts_shl hshl, Option.bind_some]
    by_cases hlt : k < 64
    · rw [cShifts_shr hlt, Option.bind_some, ih, if_pos (Or.inl hlt), if_pos (Or.inl hlt)]
      rfl
    · rw [cShifts_shr_ge (by omega), if_neg (by omega)]
      rfl

theorem cShifts_firstBits (w : BmHrlWord) {n : Nat} (hn : n < 64) :
    cShifts.firstBits w n =
      some (if 0 < n then (w >>> (64 - n)) <<< (64 - n) else 0) := by
  rw [Shifts.firstBits]
  split_ifs with h0
  · rw [cShifts_shr (by omega), Option.bind_some, cShifts_shl (by omega)]
  · rfl

/-- The header bits are shifted unless some word would be shifted by 64. -/
theorem cShifts_shiftHeaderBits (words : Nat → BmHrlWord) (numOfBits max startLoc : Nat) {k : Nat}
    (hk : 0 < k) (hk64 : k ≤ 64) :
    cShifts.shiftHeaderBits words numOfBits max startLoc k =
      if NoWidthShift numOfBits startLoc k then
        some (shiftHeaderBits words numOfBits max startLoc k) else none := by
  have hmod : startLoc % 64 < 64 := Nat.mod_lt _ (by decide)
  simp only [Shifts.shiftHeaderBits, cShifts_shiftHeaderLoop _ _ hk hk64]
  generalize hfin : (if 64 - startLoc % 64 < k then 64 - startLoc % 64 else k) = fin
  have hfin' : (64 - startLoc % 64 < k ∧ fin = 64 - startLoc % 64) ∨
      (k ≤ 64 - startLoc % 64 ∧ fin = k) := by
    split_ifs at hfin <;> omega
  by_cases hloop : k < 64 ∨ (numOfBits - 1) / 64 - startLoc / 64 = 0
  · rw [if_pos hloop, Option.bind_some, cShifts_shl hmod, Option.bind_some, cShifts_shr hmod,
      Option.bind_some, cShifts_firstBits _ hmod, Option.bind_some]
    by_cases hlt : fin < 64
    · have hno : NoWidthShift numOfBits startLoc k := by
        rw [NoWidthShift]
        omega
      rw [cShifts_shr hlt, Option.bind_some, if_pos hno, Shifts.shiftIntoNext,
        cShifts_shl (by omega), Option.bind_some, cShifts_shr (by omega)]
      simp only [shiftHeaderBits, hfin, Option.map_some]
      split_ifs <;> rfl
    · have hno : ¬ NoWidthShift numOfBits startLoc k := by
        rw [NoWidthShift]
        omega
      rw [cShifts_shr_ge (by omega), if_neg hno]
      rfl
  · have hno : ¬ NoWidthShift numOfBits startLoc k := by
      rw [NoWidthShift]
      omega
    rw [if_neg hloop, if_neg hno]
    rfl

theorem curword_moveWordsLoop (max k ins n : Nat) (r : BMTIDBuffer × BMTIDBuffer) :
    (moveWordsLoop max k ins n r).1.curword = r.1.curword := by
  induction n generalizing r with
  | zero => rfl
  | succ n ih =>
    rw [moveWordsLoop, ih]
    split_ifs <;> rfl

theorem curword_newWordsLoop (max ins : Nat) (newWords : BMTIDBuffer) (n a : Nat)
    (r : BMTIDBuffer × BMTIDBuffer) :
    (newWordsLoop max ins newWords n a r).1.curword = r.1.curword := by
  induction n generalizing a r with
  | zero => rfl
  | succ n ih =>
    rw [newWordsLoop, ih]
    split_ifs <;> rfl

/-- The words are inserted unless a header word would be shifted by 64 on the way. -/
theorem cShifts_insertNewwords (L : PageLayout) (words : BMTIDBuffer) (ins : Nat)
    {newWords : BMTIDBuffer} (wordsLeft : BMTIDBuffer) (hnew : 0 < newWords.curword)
    (hnew64 : newWords.curword ≤ 64) :
    cShifts.insertNewwords L words ins newWords wordsLeft =
      if words.curword = 0 ∨ ins = words.numCwords ∨
          NoWidthShift words.curword ins newWords.curword then
        some (insertNewwords L words ins newWords wordsLeft) else none := by
  simp only [Shifts.insertNewwords, insertNewwords]
  by_cases h0 : words.curword = 0
  · rw [if_pos h0, if_pos h0, if_pos (Or.inl h0)]
  · rw [if_neg h0, if_neg h0]
    by_cases hend : ins = words.numCwords
    · rw [if_pos hend, if_pos hend, if_pos (Or.inr (Or.inl hend))]
    · rw [if_neg hend, if_neg hend, cShifts_shiftHeaderBits _ _ _ _ hnew hnew64,
        curword_newWordsLoop, curword_moveWordsLoop]
      by_cases hno : NoWidthShift words.curword ins newWords.curword
      · rw [if_pos hno, if_pos (Or.inr (Or.inr hno)), Option.map_some]
      · have hnot : ¬ (words.curword = 0 ∨ ins = words.numCwords ∨
            NoWidthShift words.curword ins newWords.curword) := by
          rintro (h | h | h)
          · exact h0 h
          · exact hend h
          · exact hno h
        rw [if_neg hno, if_neg hnot]
        rfl

/-! ## List insertion -/

/-- The new entries are inserted at a position, and `words` has the first of all of them, as many
as fit. -/
def Inserts (words newWords : BMTIDBuffer) (ins : Nat) (r : BMTIDBuffer × BMTIDBuffer) : Prop :=
  r.1.entries ++ r.2.entries =
    words.entries.take ins ++ (newWords.entries ++ words.entries.drop ins) ∧
  r.1.curword = min (words.curword + newWords.curword) words.numCwords

theorem inserts_insertNewwords (L : PageLayout) {words newWords : BMTIDBuffer} {ins : Nat}
    (wordsLeft : BMTIDBuffer) (hmax : words.numCwords = L.wordsPerPage)
    (hcur : words.curword ≤ words.numCwords) (hins : ins ≤ words.curword)
    (hnew : 0 < newWords.curword) (hnew64 : newWords.curword ≤ 64)
    (hrest : CleanFrom words.hwords L.wordsPerPage (64 * bmCalcHWords words.curword)) :
    Inserts words newWords ins (insertNewwords L words ins newWords wordsLeft) := by
  obtain ⟨h₁, h₂, -⟩ := insertNewwords_inserted L wordsLeft hmax hcur hins hnew hnew64 hrest
  rw [Inserts, BMTIDBuffer.take_entries hins, BMTIDBuffer.drop_entries hins, hmax]
  exact ⟨h₁, h₂⟩

/-- **Inserting words is list insertion exactly when no header word is shifted by 64**, and the
header bits from the position on move right by the number of new words exactly then. The header
words past those in use are zero: both callers clear the buffer and copy the others into it. -/
theorem insert_newwords_iff (L : PageLayout) {words newWords : BMTIDBuffer} {ins : Nat}
    (wordsLeft : BMTIDBuffer) (hmax : words.numCwords = L.wordsPerPage)
    (hcur : words.curword ≤ words.numCwords) (hins : ins ≤ words.curword)
    (hnew : 0 < newWords.curword) (hnew64 : newWords.curword ≤ 64)
    (hrest : CleanFrom words.hwords L.wordsPerPage (64 * bmCalcHWords words.curword)) :
    ((∃ r, cShifts.insertNewwords L words ins newWords wordsLeft = some r ∧
        Inserts words newWords ins r) ↔
      words.curword = 0 ∨ ins = words.numCwords ∨
        NoWidthShift words.curword ins newWords.curword) ∧
    (words.curword ≠ 0 → ins ≠ words.numCwords →
      ((∃ hwords, cShifts.shiftHeaderBits words.hwords words.curword L.bmNumOfHeaderWords ins
          newWords.curword = some hwords ∧
        ShiftedFrom words.hwords hwords L.bmNumOfHeaderWords ins newWords.curword) ↔
      NoWidthShift words.curword ins newWords.curword)) := by
  have hL : L.wordsPerPage = 64 * L.bmNumOfHeaderWords := rfl
  constructor
  · rw [cShifts_insertNewwords L words ins wordsLeft hnew hnew64]
    constructor
    · rintro ⟨r, hr, -⟩
      by_contra hc
      rw [if_neg hc] at hr
      cases hr
    · intro h
      refine ⟨_, if_pos h, ?_⟩
      exact inserts_insertNewwords L wordsLeft hmax hcur hins hnew hnew64 hrest
  · intro h0 hend
    have hcalc : bmCalcHWords words.curword = (words.curword - 1) / 64 + 1 := by
      rw [bmCalcHWords, if_neg h0]
    rw [cShifts_shiftHeaderBits _ _ _ _ hnew hnew64]
    constructor
    · rintro ⟨hwords, hh, -⟩
      by_contra hc
      rw [if_neg hc] at hh
      cases hh
    · intro h
      refine ⟨_, if_pos h, ?_⟩
      apply shiftHeaderBits_spec hnew64 hins (by omega) (by omega)
      intro n hn hn'
      exact hrest n (by omega) (by omega)

/-- Two new words before the last of sixty-five, the only fill word. -/
theorem insert_newwords_crossing :
    let L : PageLayout := ⟨62, by decide⟩
    let words := { BMTIDBuffer.zero with
      curword := 65, numCwords := 3968, hwords := fun i => if i = 1 then 1#64 <<< 63 else 0 }
    let newWords := { BMTIDBuffer.zero with curword := 2 }
    ∃ r, cShifts.insertNewwords L words 64 newWords BMTIDBuffer.zero = some r ∧
      Inserts words newWords 64 r := by
  intro L words newWords
  have hrest : CleanFrom words.hwords L.wordsPerPage (64 * bmCalcHWords words.curword) := by
    intro i hi _
    have hcalc : bmCalcHWords words.curword = 2 := by decide
    rw [isFillWord_eq]
    show (if i / 64 = 1 then 1#64 <<< 63 else 0).getMsbD (i % 64) = false
    rw [if_neg (by omega)]
    simp
  exact (insert_newwords_iff L BMTIDBuffer.zero (by decide) (by decide) (by decide) (by decide)
    (by decide) hrest).1.mpr (by decide)

/-- A page buffer with one word, a fill word. -/
def fillBuffer : BMTIDBuffer :=
  { BMTIDBuffer.zero with
    curword := 1
    numCwords := 3968
    hwords := fun i => if i = 0 then 1#64 <<< 63 else 0
    cwords := fun _ => bmMakeFillWord true 1 }

/-- Sixty-four literal words. -/
def literalBuffer : BMTIDBuffer := { BMTIDBuffer.zero with curword := 64, numCwords := 64 }

/-- Sixty-four words before a fill word. The shift of its header bit is not defined, and on a
machine that masks the amount the bit stays where it is and makes the first new word a fill word. -/
theorem sixtyfour_words_not_inserted :
    let L : PageLayout := ⟨62, by decide⟩
    cShifts.insertNewwords L fillBuffer 0 literalBuffer BMTIDBuffer.zero = none ∧
    ∀ r, maskedShifts.insertNewwords L fillBuffer 0 literalBuffer BMTIDBuffer.zero = some r →
      ¬ Inserts fillBuffer literalBuffer 0 r := by
  intro L
  constructor
  · rw [cShifts_insertNewwords L fillBuffer 0 BMTIDBuffer.zero (by decide) (by decide)]
    exact if_neg (by decide)
  · intro r hr hins
    have heval : (maskedShifts.insertNewwords L fillBuffer 0 literalBuffer BMTIDBuffer.zero).map
        (fun r => isFillWord r.1.hwords 0) = some true := by
      decide +kernel
    rw [hr, Option.map_some, Option.some.injEq] at heval
    have hcur : r.1.curword = 64 + 1 := hins.2
    have hfirst := congrArg List.head? hins.1
    rw [BMTIDBuffer.entries, hcur, entriesFrom_succ] at hfirst
    have hfill : isFillWord r.1.hwords 0 = isFillWord literalBuffer.hwords 0 :=
      congrArg Prod.snd (Option.some.inj hfirst)
    rw [heval] at hfill
    exact absurd hfill (by decide)

end Hdb.Bitmap
