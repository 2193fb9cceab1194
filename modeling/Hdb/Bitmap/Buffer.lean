import Hdb.Bitmap.Insert

/-!
# The words of a buffer

Building words in a buffer never changes the bits they stand for, except for the one that is set.
`BufCore` is what holds of a buffer between two steps, when the words before it have `T` bits; each
step says what becomes of the complete part of the buffer (`flat`) and of its last word.
-/

namespace Hdb.Bitmap

/-! ## Appending a word -/

/-- The buffer has allocated what it uses. -/
def Room (buf : BMTIDBuffer) : Prop :=
  (buf.numCwords = 0 → buf.curword = 0) ∧ buf.curword ≤ buf.numCwords

/-- What `bufExtend` leaves alone. -/
theorem bufExtend_spec {buf : BMTIDBuffer} (h : Room buf) :
    (bufExtend buf).hwords = buf.hwords ∧ (bufExtend buf).curword = buf.curword ∧
    (bufExtend buf).lastCompword = buf.lastCompword ∧ (bufExtend buf).lastWord = buf.lastWord ∧
    (bufExtend buf).isLastCompwordFill = buf.isLastCompwordFill ∧
    (bufExtend buf).lastTid = buf.lastTid ∧
    (∀ i < buf.curword, (bufExtend buf).cwords i = buf.cwords i) ∧
    (∀ i < buf.curword, (bufExtend buf).lastTids i = buf.lastTids i) ∧
    buf.curword + 1 ≤ (bufExtend buf).numCwords ∧ 0 < (bufExtend buf).numCwords := by
  obtain ⟨h0, hle⟩ := h
  unfold bufExtend
  by_cases h₁ : 0 < buf.numCwords ∧ buf.curword < buf.numCwords - 1
  · rw [if_pos h₁]
    exact ⟨rfl, rfl, rfl, rfl, rfl, rfl, fun _ _ => rfl, fun _ _ => rfl, by omega, h₁.1⟩
  · rw [if_neg h₁]
    by_cases h₂ : buf.numCwords = 0
    · rw [if_pos h₂]
      refine ⟨rfl, rfl, rfl, rfl, rfl, rfl, fun i hi => ?_, fun i hi => ?_, ?_, Nat.succ_pos 7⟩
      · rw [h0 h₂] at hi
        omega
      · rw [h0 h₂] at hi
        omega
      · simp only [h0 h₂]
        decide
    · rw [if_neg h₂]
      refine ⟨rfl, rfl, rfl, rfl, rfl, rfl, fun i hi => ?_, fun i hi => ?_, ?_, ?_⟩
      · simp only
        rw [if_neg (by omega)]
      · simp only
        rw [if_neg (by omega)]
      · simp only
        omega
      · simp only
        omega

/-- The arrays of a buffer with one more word. -/
theorem entriesFrom_push {cwords hwords cwords' hwords' : Nat → BmHrlWord} {n : Nat} {e : Entry}
    (hc : ∀ i < n, cwords' i = cwords i)
    (hh : ∀ i < n, isFillWord hwords' i = isFillWord hwords i)
    (he : (cwords' n, isFillWord hwords' n) = e) :
    entriesFrom cwords' hwords' 0 (n + 1) = entriesFrom cwords hwords 0 n ++ [e] := by
  rw [entriesFrom_add, Nat.zero_add, entriesFrom_succ, entriesFrom_zero, he]
  congr 1
  apply entriesFrom_congr
  · intro j hj
    rw [Nat.zero_add]
    exact hc j hj
  · intro j hj
    rw [Nat.zero_add]
    exact hh j hj

/-- The last tids of the words are where the words end, after `T` bits. -/
def LastTidsOk (T : Nat) (buf : BMTIDBuffer) : Prop :=
  ∀ i < buf.curword, buf.lastTids i = T + numBits (entriesFrom buf.cwords buf.hwords 0 (i + 1))

/-- No header bit is set past the words in use. -/
def BufClean (buf : BMTIDBuffer) : Prop := ∀ i, buf.curword ≤ i → isFillWord buf.hwords i = false

/-- Header bits after setting the one of the word `n`, if it is a fill word. -/
theorem isFillWord_push {hwords : Nat → BmHrlWord} {n : Nat} {f : Bool}
    (hclean : ∀ i, n ≤ i → isFillWord hwords i = false) (i : Nat) :
    isFillWord (if f then Function.update hwords (n / 64)
      (hwords (n / 64) ||| wordnoGetHeaderBit n) else hwords) i =
      if i = n then f else isFillWord hwords i := by
  cases f with
  | false =>
    rw [if_neg Bool.false_ne_true]
    split_ifs with hi
    · rw [hi]
      exact hclean n le_rfl
    · rfl
  | true =>
    rw [if_pos rfl, isFillWord_setBit]
    split_ifs with hi
    · rw [decide_eq_true hi, Bool.or_true]
    · rw [decide_eq_false hi, Bool.or_false]

/-- A buffer with one more word in its arrays. -/
structure Pushed (buf buf' : BMTIDBuffer) (e : Entry) (lastTid : Nat) : Prop where
  entries : buf'.entries = buf.entries ++ [e]
  init_eq : ∀ i ≤ buf.curword, entriesFrom buf'.cwords buf'.hwords 0 i =
    entriesFrom buf.cwords buf.hwords 0 i
  curword : buf'.curword = buf.curword + 1
  lastTids : ∀ i < buf.curword, buf'.lastTids i = buf.lastTids i
  lastTids_last : buf'.lastTids buf.curword = lastTid
  clean : BufClean buf'
  room : Room buf'
  numCwords : 0 < buf'.numCwords

theorem Pushed.lastTidsOk {buf buf' : BMTIDBuffer} {e : Entry} {T lastTid : Nat}
    (h : Pushed buf buf' e lastTid) (hbuf : LastTidsOk T buf)
    (hlast : lastTid = T + numBits (buf.entries ++ [e])) : LastTidsOk T buf' := by
  intro i hi
  rw [h.curword] at hi
  by_cases hi' : i < buf.curword
  · rw [h.lastTids i hi', hbuf i hi', h.init_eq (i + 1) hi']
  · have hi₀ : i = buf.curword := by omega
    have hall : entriesFrom buf'.cwords buf'.hwords 0 (i + 1) = buf'.entries := by
      rw [BMTIDBuffer.entries, h.curword, hi₀]
    rw [hall, h.entries, hi₀, h.lastTids_last, hlast]

theorem pushed_of_extend {buf buf' : BMTIDBuffer} {w : BmHrlWord} {f : Bool} {lastTid : Nat}
    (hclean : BufClean buf) (hroom : Room buf)
    (hc : buf'.cwords = Function.update (bufExtend buf).cwords buf.curword w)
    (ht : buf'.lastTids = Function.update (bufExtend buf).lastTids buf.curword lastTid)
    (hh : buf'.hwords = if f then Function.update buf.hwords (buf.curword / 64)
      (buf.hwords (buf.curword / 64) ||| wordnoGetHeaderBit buf.curword) else buf.hwords)
    (hcur : buf'.curword = buf.curword + 1) (hnum : buf'.numCwords = (bufExtend buf).numCwords) :
    Pushed buf buf' (w, f) lastTid := by
  obtain ⟨-, -, -, -, -, -, e₁, e₂, e₃, e₄⟩ := bufExtend_spec hroom
  have hbit : ∀ i, isFillWord buf'.hwords i =
      if i = buf.curword then f else isFillWord buf.hwords i := by
    intro i
    rw [hh]
    exact isFillWord_push hclean i
  have hcw : ∀ i < buf.curword, buf'.cwords i = buf.cwords i := by
    intro i hi
    rw [hc, Function.update_of_ne (by omega), e₁ i hi]
  have hfw : ∀ i < buf.curword, isFillWord buf'.hwords i = isFillWord buf.hwords i := by
    intro i hi
    rw [hbit, if_neg (by omega)]
  refine ⟨?_, fun i hi => ?_, hcur, fun i hi => ?_, ?_, fun i hi => ?_, ⟨fun h0 => ?_, ?_⟩, ?_⟩
  · rw [BMTIDBuffer.entries, hcur]
    refine entriesFrom_push hcw hfw ?_
    rw [hbit, if_pos rfl, hc, Function.update_self]
  · apply entriesFrom_congr
    · intro j hj
      exact hcw _ (by omega)
    · intro j hj
      exact hfw _ (by omega)
  · rw [ht, Function.update_of_ne (by omega), e₂ i hi]
  · rw [ht, Function.update_self]
  · rw [hcur] at hi
    rw [hbit, if_neg (by omega)]
    exact hclean i (by omega)
  · omega
  · omega
  · omega

/-! ## Merging -/

/-- The last complete word of a buffer, unless it is not set. -/
def bufComp (buf : BMTIDBuffer) : List Entry :=
  if buf.lastCompword = literalAllOne then [] else [(buf.lastCompword, buf.isLastCompwordFill)]

/-- The complete part of a buffer. -/
def flat (buf : BMTIDBuffer) : List Entry := buf.entries ++ bufComp buf

structure BufCore (T : Nat) (buf : BMTIDBuffer) : Prop where
  lastTids : LastTidsOk T buf
  clean : BufClean buf
  room : Room buf
  complete : buf.lastTid - buf.lastTid % 64 = T + numBits (flat buf)
  unset : buf.lastCompword = literalAllOne → buf.curword = 0 ∧ T = 0
  fill : buf.isLastCompwordFill = true → 0 < fillLength buf.lastCompword

theorem flat_of_unset {T : Nat} {buf : BMTIDBuffer} (h : BufCore T buf)
    (hu : buf.lastCompword = literalAllOne) : flat buf = [] := by
  rw [flat, bufComp, if_pos hu, BMTIDBuffer.entries, (h.unset hu).1]
  rfl

theorem flat_of_set {buf : BMTIDBuffer} (hu : buf.lastCompword ≠ literalAllOne) :
    flat buf = buf.entries ++ [(buf.lastCompword, buf.isLastCompwordFill)] := by
  rw [flat, bufComp, if_neg hu]

/-- The last word has been merged: the bits of the complete part and of the last word are those of
the new complete part. -/
structure Merged (T : Nat) (buf : BMTIDBuffer) (f : Bool) (buf' : BMTIDBuffer) : Prop where
  core : BufCore T buf'
  same : SameBits (flat buf ++ [(buf.lastWord, f)]) (flat buf')
  word : buf'.lastWord = 0
  tid : buf'.lastTid = T + numBits (flat buf) + entryLen (buf.lastWord, f)
  cur : buf'.curword ≤ buf.curword + 1
  set : buf'.lastCompword ≠ literalAllOne

section

variable {T : Nat} {buf : BMTIDBuffer} {f : Bool}

theorem entryLen_mod (w : BmHrlWord) (f : Bool) : entryLen (w, f) % 64 = 0 := by
  cases f with
  | false => rw [entryLen_literal]
  | true => rw [entryLen_fill, Nat.mul_mod_left]

/-- The last complete word is not set yet. -/
theorem mergewords_unset (h : BufCore T buf) (hw : buf.lastWord ≠ literalAllOne)
    (hf : f = true → 0 < fillLength buf.lastWord) (hu : buf.lastCompword = literalAllOne) :
    Merged T buf f (mergewords buf f) := by
  have hlen := entryLen_mod buf.lastWord f
  have hflat := flat_of_unset h hu
  obtain ⟨hcur, hT⟩ := h.unset hu
  have hm : mergewords buf f = { buf with
      lastCompword := buf.lastWord
      isLastCompwordFill := f
      lastWord := 0
      lastTid := entryLen (buf.lastWord, f) } := by
    simp only [mergewords, hu, if_true]
    rfl
  have hflat' : flat (mergewords buf f) = [(buf.lastWord, f)] := by
    rw [hm, flat_of_set hw, BMTIDBuffer.entries, hcur]
    rfl
  refine ⟨⟨?_, ?_, ?_, ?_, ?_, ?_⟩, ?_, ?_, ?_, ?_, ?_⟩
  · rw [hm]
    exact h.lastTids
  · rw [hm]
    exact h.clean
  · rw [hm]
    exact h.room
  · rw [hflat', hm, hT]
    simp only [Segments.total_cons, Segments.total_nil]
    omega
  · rw [hm]
    intro hone
    exact absurd hone hw
  · rw [hm]
    exact hf
  · rw [hflat', hflat]
    exact Segments.SameBits.refl _
  · rw [hm]
  · rw [hm, hflat, hT]
    simp
  · rw [hm]
    exact Nat.le_succ _
  · rw [hm]
    exact hw

/-- Two fill words of the same bit. -/
theorem mergewords_fills (h : BufCore T buf) (hw : 0 < fillLength buf.lastWord)
    (hbound : T + numBits (flat buf) + entryLen (buf.lastWord, true) < 2 ^ 63)
    (hu : buf.lastCompword ≠ literalAllOne) (hcf : buf.isLastCompwordFill = true)
    (hbit : getFillBit buf.lastCompword = getFillBit buf.lastWord) :
    Merged T buf true (mergewords buf true) := by
  have hcomplete := h.complete
  have hflat := flat_of_set hu
  rw [hflat, numBits_append, hcf] at hbound hcomplete
  simp only [Segments.total_cons, Segments.total_nil, entryLen_fill] at hbound hcomplete
  have hmaxeq : maxFillLength = 2 ^ 63 - 1 := rfl
  have hmergeable : (buf.isLastCompwordFill && true &&
      getFillBit buf.lastCompword == getFillBit buf.lastWord) = true := by
    simp [hcf, hbit]
  have hsum : fillLength buf.lastCompword + fillLength buf.lastWord < 2 ^ 57 := by omega
  have hmax : fillLength buf.lastCompword + fillLength buf.lastWord ≤ maxFillLength := by omega
  have hadd : buf.lastCompword + BitVec.ofNat 64 (fillLength buf.lastWord) =
      bmMakeFillWord (getFillBit buf.lastCompword)
        (fillLength buf.lastCompword + fillLength buf.lastWord) := by
    rw [← make_add _ (by omega), make_self]
  have hne : bmMakeFillWord (getFillBit buf.lastCompword)
      (fillLength buf.lastCompword + fillLength buf.lastWord) ≠ literalAllOne :=
    make_ne_literalAllOne _ (by omega)
  have hm : mergewords buf true = { buf with
      lastCompword := bmMakeFillWord (getFillBit buf.lastCompword)
        (fillLength buf.lastCompword + fillLength buf.lastWord)
      lastWord := literalAllZero
      lastTid := buf.lastTid - buf.lastTid % 64 + fillLength buf.lastWord * 64 } := by
    rw [← hadd]
    simp only [mergewords, hu, if_false, hmergeable, hmax, and_self, if_true]
  have hflat' : flat (mergewords buf true) = buf.entries ++
      [(bmMakeFillWord (getFillBit buf.lastCompword)
        (fillLength buf.lastCompword + fillLength buf.lastWord), true)] := by
    rw [hm, flat_of_set hne]
    simp only [hcf]
    rfl
  have hsame : SameBits (flat buf ++ [(buf.lastWord, true)]) (flat (mergewords buf true)) := by
    have h₀ := sameBits_merge (getFillBit buf.lastCompword)
      (show fillLength buf.lastCompword + fillLength buf.lastWord < 2 ^ 63 by omega)
    rw [make_self, hbit, make_self, ← hbit] at h₀
    have h₁ := h₀.frame buf.entries []
    rw [List.append_nil, List.append_nil] at h₁
    rw [hflat, hflat', hcf, List.append_assoc]
    exact h₁
  have htot : numBits (flat (mergewords buf true)) =
      numBits (flat buf) + fillLength buf.lastWord * 64 := by
    have ht : numBits (flat (mergewords buf true)) =
      numBits (flat buf ++ [(buf.lastWord, true)]) := hsame.1
    rw [ht, numBits_append]
    simp
  refine ⟨⟨?_, ?_, ?_, ?_, ?_, ?_⟩, hsame, ?_, ?_, ?_, ?_⟩
  · rw [hm]
    exact h.lastTids
  · rw [hm]
    exact h.clean
  · rw [hm]
    exact h.room
  · have := h.complete
    rw [htot, hm]
    dsimp only
    omega
  · rw [hm]
    intro hone
    exact absurd hone hne
  · rw [hm]
    intro _
    rw [fillLength_make _ (by omega)]
    omega
  · rw [hm]
    rfl
  · rw [hm, entryLen_fill, ← h.complete]
  · rw [hm]
    exact Nat.le_succ _
  · rw [hm]
    exact hne

/-- The last complete word goes to the array. -/
theorem mergewords_push (h : BufCore T buf) (hw : buf.lastWord ≠ literalAllOne)
    (hf : f = true → 0 < fillLength buf.lastWord) (hu : buf.lastCompword ≠ literalAllOne)
    (hmergeable : (buf.isLastCompwordFill && f &&
      getFillBit buf.lastCompword == getFillBit buf.lastWord) = false) :
    Merged T buf f (mergewords buf f) := by
  have hlen := entryLen_mod buf.lastWord f
  have hflat := flat_of_set hu
  obtain ⟨x₁, x₂, x₃, x₄, x₅, x₆, -, -, -, -⟩ := bufExtend_spec h.room
  have hm : mergewords buf f = { bufExtend buf with
      cwords := Function.update (bufExtend buf).cwords (bufExtend buf).curword buf.lastCompword
      lastTids := Function.update (bufExtend buf).lastTids (bufExtend buf).curword
        (buf.lastTid - buf.lastTid % 64)
      hwords := if (bufExtend buf).isLastCompwordFill then
          Function.update (bufExtend buf).hwords ((bufExtend buf).curword / 64)
            ((bufExtend buf).hwords ((bufExtend buf).curword / 64) |||
              1#64 <<< (63 - (bufExtend buf).curword % 64))
        else (bufExtend buf).hwords
      curword := (bufExtend buf).curword + 1
      lastCompword := buf.lastWord
      isLastCompwordFill := f
      lastWord := 0
      lastTid := if f then buf.lastTid - buf.lastTid % 64 + fillLength buf.lastWord * 64
        else buf.lastTid - buf.lastTid % 64 + 64 } := by
    simp only [mergewords, hu, if_false, hmergeable, Bool.false_eq_true, false_and,
      Nat.zero_mul, Nat.add_zero, BitVec.ofNat_eq_ofNat, BitVec.add_zero, BitVec.sub_zero]
  have hpush : Pushed buf (mergewords buf f) (buf.lastCompword, buf.isLastCompwordFill)
      (buf.lastTid - buf.lastTid % 64) := by
    apply pushed_of_extend h.clean h.room
    · rw [hm, x₂]
    · rw [hm, x₂]
    · rw [hm, x₁, x₂, x₅]
      rfl
    · rw [hm, x₂]
    · rw [hm]
  have htid : (mergewords buf f).lastTid =
      buf.lastTid - buf.lastTid % 64 + entryLen (buf.lastWord, f) := by
    rw [hm]
    cases f <;> simp
  have hflat' : flat (mergewords buf f) = flat buf ++ [(buf.lastWord, f)] := by
    have hlast : (mergewords buf f).lastCompword = buf.lastWord := by rw [hm]
    have hfl : (mergewords buf f).isLastCompwordFill = f := by rw [hm]
    rw [flat_of_set (by rw [hlast]; exact hw), hpush.entries, hlast, hfl, hflat]
  have htot : numBits (flat (mergewords buf f)) =
      numBits (flat buf) + entryLen (buf.lastWord, f) := by
    rw [hflat', numBits_append]
    simp
  refine ⟨⟨?_, hpush.clean, hpush.room, ?_, ?_, ?_⟩, ?_, ?_, ?_, ?_, ?_⟩
  · apply hpush.lastTidsOk h.lastTids
    rw [h.complete, hflat]
  · have := h.complete
    rw [htot, htid, h.complete]
    omega
  · rw [hm]
    intro hone
    exact absurd hone hw
  · rw [hm]
    exact hf
  · rw [hflat']
    exact Segments.SameBits.refl _
  · rw [hm]
  · rw [htid, h.complete]
  · rw [hpush.curword]
  · rw [hm]
    exact hw

/-- **Merging the last word.** -/
theorem mergewords_spec (h : BufCore T buf) (hw : buf.lastWord ≠ literalAllOne)
    (hf : f = true → 0 < fillLength buf.lastWord)
    (hbound : T + numBits (flat buf) + entryLen (buf.lastWord, f) < 2 ^ 63) :
    Merged T buf f (mergewords buf f) := by
  by_cases hu : buf.lastCompword = literalAllOne
  · exact mergewords_unset h hw hf hu
  · cases hmergeable : buf.isLastCompwordFill && f &&
        getFillBit buf.lastCompword == getFillBit buf.lastWord with
    | false => exact mergewords_push h hw hf hu hmergeable
    | true =>
      simp only [Bool.and_eq_true, beq_iff_eq] at hmergeable
      obtain ⟨⟨hcf, rfl⟩, hbit⟩ := hmergeable
      exact mergewords_fills h (hf rfl) hbound hu hcf hbit

end

/-! ## Splitting a fill word -/

theorem putWord_pushed {buf : BMTIDBuffer} (hclean : BufClean buf) (hroom : Room buf)
    (hlt : buf.curword + 1 < buf.numCwords - 1) (h64 : buf.curword < 64) (w : BmHrlWord) (f : Bool)
    (lastTid : Nat) :
    Pushed buf (putWord buf w f lastTid) (w, f) lastTid ∧
      (putWord buf w f lastTid).numCwords = buf.numCwords := by
  -- There is room, so neither extension does anything.
  have hx : bufExtend buf = buf := by
    rw [bufExtend, if_pos (by omega)]
  have hx' : bufExtend { buf with
      cwords := Function.update buf.cwords buf.curword w
      lastTids := Function.update buf.lastTids buf.curword lastTid
      curword := buf.curword + 1 } = { buf with
      cwords := Function.update buf.cwords buf.curword w
      lastTids := Function.update buf.lastTids buf.curword lastTid
      curword := buf.curword + 1 } := by
    rw [bufExtend]
    dsimp only
    rw [if_pos (by omega)]
  have hbit : (1#64 <<< (64 - (buf.curword + 1)) : BmHrlWord) = wordnoGetHeaderBit buf.curword := by
    rw [wordnoGetHeaderBit]
    congr 1
    omega
  have hp : putWord buf w f lastTid = { buf with
      cwords := Function.update buf.cwords buf.curword w
      lastTids := Function.update buf.lastTids buf.curword lastTid
      curword := buf.curword + 1
      hwords := if f then Function.update buf.hwords (buf.curword / 64)
        (buf.hwords (buf.curword / 64) ||| wordnoGetHeaderBit buf.curword) else buf.hwords } := by
    simp only [putWord, hx', Nat.add_sub_cancel, hbit]
    cases f <;> rfl
  refine ⟨?_, by rw [hp]⟩
  apply pushed_of_extend hclean hroom
  · rw [hp, hx]
  · rw [hp, hx]
  · rw [hp]
  · rw [hp]
  · rw [hp, hx]

/-- What a fill word of `n` words of zeros becomes when the bit `loc` is set. -/
def splitEntries (n loc : Nat) : List Entry :=
  (if 64 ≤ loc then [(bmMakeFillWord false (loc / 64), true)] else []) ++
    ((1#64 <<< (loc % 64), false) ::
      (if loc / 64 + 1 < n then [(bmMakeFillWord false (n - loc / 64 - 1), true)] else []))

theorem setBit_splitEntries {word : BmHrlWord} {n loc : Nat} (hbit : getFillBit word = false)
    (hn : fillLength word = n) (hloc : loc < n * 64) :
    SetBit [(word, true)] (splitEntries n loc) loc := by
  have hnlt : n < 2 ^ 63 := hn ▸ fillLength_lt word
  have hk : loc % 64 < 64 := Nat.mod_lt loc (by decide)
  have hlit : ∀ p, (1#64 <<< (loc % 64) : BmHrlWord).getLsbD p = decide (p = loc % 64) := by
    intro p
    have := getLsbD_or_bit 0#64 hk p
    simpa using this
  have ha : fillLength (bmMakeFillWord false (loc / 64)) = loc / 64 := fillLength_make _ (by omega)
  have hc : fillLength (bmMakeFillWord false (n - loc / 64 - 1)) = n - loc / 64 - 1 :=
    fillLength_make _ (by omega)
  have hga := getFillBit_make false (show loc / 64 < 2 ^ 63 by omega)
  have hgc := getFillBit_make false (show n - loc / 64 - 1 < 2 ^ 63 by omega)
  constructor
  · simp only [splitEntries, Segments.total_append, Segments.total_cons, Segments.total_nil,
      entryLen_literal, entryLen_fill, hn]
    split_ifs <;> simp only [Segments.total_cons, Segments.total_nil, entryLen_fill, ha, hc] <;>
      omega
  · intro p
    rw [Segments.bitAt_singleton, entryBit_fill, hbit, Bool.and_false, Bool.false_or]
    rw [splitEntries, Segments.bitAt_append]
    have htail : Segments.bitAt entryLen entryBit
        (if loc / 64 + 1 < n then [(bmMakeFillWord false (n - loc / 64 - 1), true)] else [])
        = fun _ => false := by
      funext q
      split_ifs
      · rw [Segments.bitAt_singleton, entryBit_fill, hgc, Bool.and_false]
      · rfl
    have hmid : ∀ q, Segments.bitAt entryLen entryBit ((1#64 <<< (loc % 64), false) ::
        (if loc / 64 + 1 < n then [(bmMakeFillWord false (n - loc / 64 - 1), true)] else [])) q =
        decide (q = loc % 64) := by
      intro q
      rw [Segments.bitAt, entryLen_literal, entryBit_literal, hlit, htail]
      split_ifs with hq
      · rfl
      · exact (decide_eq_false (by omega)).symm
    rw [hmid]
    by_cases h64 : 64 ≤ loc
    · rw [if_pos h64, Segments.bitAt_singleton, entryBit_fill, hga, Bool.and_false]
      simp only [Segments.total_cons, Segments.total_nil, entryLen_fill, ha]
      split_ifs with hp
      · exact (decide_eq_false (by omega)).symm
      · exact decide_eq_decide.mpr (by omega)
    · rw [if_neg h64]
      simp only [Segments.total_nil, Nat.not_lt_zero, if_false, Nat.sub_zero]
      exact decide_eq_decide.mpr (by omega)

/-- A buffer that has been given `es`, from an empty one with room for seven words. -/
structure Filled (T : Nat) (buf : BMTIDBuffer) (es : List Entry) : Prop where
  entries : buf.entries = es
  curword : buf.curword = es.length
  lastTids : LastTidsOk T buf
  clean : BufClean buf
  room : Room buf
  numCwords : buf.numCwords = 8

theorem filled_empty (T : Nat) : Filled T (bufExtend BMTIDBuffer.zero) [] where
  entries := rfl
  curword := rfl
  lastTids i hi := absurd hi (Nat.not_lt_zero i)
  clean i _ := by
    show isFillWord (fun _ => 0) i = false
    simp [isFillWord]
  room := ⟨fun _ => rfl, Nat.zero_le _⟩
  numCwords := rfl

theorem Filled.put {T : Nat} {buf : BMTIDBuffer} {es : List Entry} (h : Filled T buf es)
    (hlen : es.length < 5) (w : BmHrlWord) (f : Bool) (lastTid : Nat)
    (hlast : lastTid = T + numBits (es ++ [(w, f)])) :
    Filled T (putWord buf w f lastTid) (es ++ [(w, f)]) := by
  have hc := h.curword
  have hn := h.numCwords
  obtain ⟨hp, hnum⟩ := putWord_pushed h.clean h.room (by omega) (by omega) w f lastTid
  refine ⟨?_, ?_, hp.lastTidsOk h.lastTids ?_, hp.clean, hp.room, hnum.trans hn⟩
  · rw [hp.entries, h.entries]
  · rw [hp.curword, hc, List.length_append]
    rfl
  · rw [h.entries, hlast]

/-- **Setting a bit in a fill word of zeros.** -/
theorem updatesetbitInword_spec {word : BmHrlWord} {loc T : Nat}
    (hloc : loc < fillLength word * 64) :
    Filled T (updatesetbitInword word loc (T + 1) (bufExtend BMTIDBuffer.zero))
      (splitEntries (fillLength word) loc) := by
  have hnlt := fillLength_lt word
  have ha : fillLength (bmMakeFillWord false (loc / 64)) = loc / 64 := fillLength_make _ (by omega)
  have hc : fillLength (bmMakeFillWord false (fillLength word - loc / 64 - 1)) =
      fillLength word - loc / 64 - 1 := fillLength_make _ (by omega)
  -- The fill word before the bit, if any.
  have h₁ : Filled T (if 64 ≤ loc then putWord (bufExtend BMTIDBuffer.zero)
        (bmMakeFillWord false (loc / 64)) true (T + 1 + loc / 64 * 64 - 1)
      else bufExtend BMTIDBuffer.zero)
      (if 64 ≤ loc then [(bmMakeFillWord false (loc / 64), true)] else []) := by
    split_ifs with h64
    · refine (filled_empty T).put (by simp) _ true _ ?_
      simp only [List.nil_append, Segments.total_cons, Segments.total_nil, entryLen_fill, ha]
      omega
    · exact filled_empty T
  have hn₁ : numBits (if 64 ≤ loc then [(bmMakeFillWord false (loc / 64), true)] else []) =
      loc / 64 * 64 := by
    split_ifs with h64
    · simp [ha]
    · simp only [Segments.total_nil]
      omega
  have hlen₁ : (if 64 ≤ loc then [(bmMakeFillWord false (loc / 64), true)]
      else ([] : List Entry)).length ≤ 1 := by
    split_ifs <;> simp
  have hpos : loc - (if 64 ≤ loc then loc / 64 * 64 else 0) = loc % 64 := by
    split_ifs <;> omega
  have h₂ := h₁.put (by omega) (1#64 <<< (loc % 64)) false
    (T + 1 + loc / 64 * 64 + 64 - 1) (by
      rw [numBits_append, hn₁]
      simp only [Segments.total_cons, Segments.total_nil, entryLen_literal]
      omega)
  simp only [updatesetbitInword, hpos]
  by_cases hrest : (if 64 ≤ loc then loc / 64 * 64 else 0) + 64 < fillLength word * 64
  · have hsplit : loc / 64 + 1 < fillLength word := by
      split_ifs at hrest <;> omega
    have hfl : (fillLength word * 64 - ((if 64 ≤ loc then loc / 64 * 64 else 0) + 64)) / 64 =
        fillLength word - loc / 64 - 1 := by
      split_ifs <;> omega
    rw [if_pos hrest, hfl]
    have h₃ := h₂.put (by rw [List.length_append]; simp only [List.length_singleton]; omega)
      (bmMakeFillWord false (fillLength word - loc / 64 - 1)) true
      (T + 1 + loc / 64 * 64 + 64 + (fillLength word - loc / 64 - 1) * 64 - 1) (by
        rw [numBits_append, numBits_append, hn₁]
        simp only [Segments.total_cons, Segments.total_nil, entryLen_literal, entryLen_fill, hc]
        omega)
    rw [splitEntries, if_pos hsplit]
    simpa using h₃
  · have hsplit : ¬ loc / 64 + 1 < fillLength word := by
      split_ifs at hrest <;> omega
    rw [if_neg hrest, splitEntries, if_neg hsplit]
    exact h₂

end Hdb.Bitmap
