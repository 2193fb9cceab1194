import Hdb.Bitmap.Scan
import Hdb.Bitmap.Chain

/-!
# The union of batches

A batch that has read some words of a vector stands for the bits that come after them (`Reads`). All
operations on a batch keep this relation and only move the position; a round over the batches gives
a word whose bits are the or of the bits at its position (`unionRound_spec`). The rounds of one call
give a stretch of the or of the vectors (`bitmapUnion_spec`), provided that the zeros skipped at its
start are zeros of every vector: `fast_forward` compares the fill lengths of the batches as if all
of them were at the same position, which they need not be (`fastForwardOk`).
-/

namespace Hdb.Bitmap

abbrev Drop (es es' : List Entry) (n : Nat) : Prop := Segments.Drop entryLen entryBit es es' n

/-! ## One batch -/

/-- No fill word is empty. -/
def FillsPos (es : List Entry) : Prop := ∀ e ∈ es, e.2 = true → 0 < fillLength e.1

/-- A vector, and the part of it that is not in the batch yet. -/
structure Content where
  all : List Entry
  later : List Entry

/-- The batch is at word `nwordsread` of the vector. -/
structure Reads (c : Content) (b : BMBatchWords) : Prop where
  drop : Drop c.all (b.entries ++ c.later) (64 * b.nwordsread)
  fills : FillsPos b.entries

/-- A fill word gets shorter. -/
theorem make_sub (bit : Bool) {m n : Nat} (h : m < 2 ^ 63) (hn : n ≤ m) :
    bmMakeFillWord bit m - BitVec.ofNat 64 n = bmMakeFillWord bit (m - n) := by
  have hadd := make_add bit (show m - n + n < 2 ^ 63 by omega)
  rw [Nat.sub_add_cancel hn] at hadd
  rw [← hadd, BitVec.add_sub_cancel]

theorem fillLength_sub (w : BmHrlWord) {n : Nat} (hn : n ≤ fillLength w) :
    fillLength (w - BitVec.ofNat 64 n) = fillLength w - n ∧
      getFillBit (w - BitVec.ofNat 64 n) = getFillBit w := by
  have hlt := fillLength_lt w
  have hsub := make_sub (getFillBit w) hlt hn
  rw [make_self] at hsub
  rw [hsub]
  exact ⟨fillLength_make _ (by omega), getFillBit_make _ (by omega)⟩

/-- The words of a batch after the current one. -/
def BMBatchWords.tail (b : BMBatchWords) : List Entry :=
  entriesFrom b.cwords b.hwords (b.startNo + 1) (b.nwords - 1)

theorem entries_cons {b : BMBatchWords} (h : 0 < b.nwords) :
    b.entries = (curWord b, curWordIsFill b) :: b.tail := by
  obtain ⟨n, hn⟩ : ∃ n, b.nwords = n + 1 := ⟨b.nwords - 1, by omega⟩
  rw [BMBatchWords.entries, BMBatchWords.tail, hn, entriesFrom_succ, Nat.add_sub_cancel]
  rfl

theorem entries_nil {b : BMBatchWords} (h : b.nwords = 0) : b.entries = [] := by
  rw [BMBatchWords.entries, h, entriesFrom_zero]

/-- The current word replaced. -/
theorem entries_update {b b' : BMBatchWords} {w : BmHrlWord} (h : 0 < b.nwords)
    (hc : b'.cwords = Function.update b.cwords b.startNo w) (hh : b'.hwords = b.hwords)
    (hs : b'.startNo = b.startNo) (hn : b'.nwords = b.nwords) :
    b'.entries = (w, curWordIsFill b) :: b.tail := by
  rw [entries_cons (by omega), curWord, curWordIsFill, curWordIsFill, hc, hs, hh,
    Function.update_self, BMBatchWords.tail, BMBatchWords.tail, hc, hs, hh, hn]
  congr 1
  apply entriesFrom_congr
  · intro j _
    exact Function.update_of_ne (by omega) _ _
  · intro j _
    rfl

section

variable {c : Content} {b : BMBatchWords}

theorem Reads.fill_pos (h : Reads c b) (hn : 0 < b.nwords) (hf : curWordIsFill b = true) :
    0 < fillLength (curWord b) := by
  apply h.fills (curWord b, curWordIsFill b)
  · rw [entries_cons hn]
    exact List.mem_cons_self ..
  · exact hf

/-- The number of uncompressed words of the current word. -/
def curLength (b : BMBatchWords) : Nat := if curWordIsFill b then fillLength (curWord b) else 1

theorem entryLen_cur (b : BMBatchWords) :
    entryLen (curWord b, curWordIsFill b) = 64 * curLength b := by
  rw [curLength]
  cases curWordIsFill b with
  | true =>
    rw [entryLen_fill, if_pos rfl, Nat.mul_comm]
  | false => rw [entryLen_literal, if_neg Bool.false_ne_true]

/-- Passing the current word. -/
theorem Reads.pass (h : Reads c b) (hn : 0 < b.nwords) {b' : BMBatchWords}
    (hread : b'.nwordsread = b.nwordsread + curLength b) (hentries : b'.entries = b.tail) :
    Reads c b' := by
  constructor
  · have hdrop : Drop ((curWord b, curWordIsFill b) :: b.tail ++ c.later) (b.tail ++ c.later) _ :=
      (Segments.drop_cons (curWord b, curWordIsFill b) b.tail).append c.later
    rw [entryLen_cur] at hdrop
    rw [hread, hentries, Nat.mul_add]
    apply h.drop.trans
    rw [entries_cons hn]
    exact hdrop
  · intro e he
    apply h.fills
    rw [entries_cons hn]
    rw [hentries] at he
    exact List.mem_cons_of_mem _ he

/-- Passing some of a fill word. -/
theorem Reads.shorten (h : Reads c b) (hn : 0 < b.nwords) (hf : curWordIsFill b = true) {k : Nat}
    (hk : k < fillLength (curWord b)) {b' : BMBatchWords} (hread : b'.nwordsread = b.nwordsread + k)
    (hentries : b'.entries = (curWord b - BitVec.ofNat 64 k, curWordIsFill b) :: b.tail) :
    Reads c b' := by
  obtain ⟨hlen, hbit⟩ := fillLength_sub (curWord b) hk.le
  constructor
  · rw [hread, hentries, Nat.mul_add, hf]
    apply h.drop.trans
    rw [entries_cons hn, hf]
    refine (Segments.drop_head b.tail ?_ ?_).append c.later
    · rw [entryLen_fill, entryLen_fill, hlen]
      omega
    · intro p _
      rw [entryBit_fill, entryBit_fill, hbit]
  · intro e he hfill
    rw [hentries] at he
    rcases List.mem_cons.mp he with rfl | he
    · show 0 < fillLength (curWord b - BitVec.ofNat 64 k)
      omega
    · apply h.fills _ _ hfill
      rw [entries_cons hn]
      exact List.mem_cons_of_mem _ he

/-- The bits of the current word. -/
theorem Reads.bit (h : Reads c b) (hn : 0 < b.nwords) {j : Nat} (hj : j < 64 * curLength b) :
    bitAt c.all (64 * b.nwordsread + j) = entryBit (curWord b, curWordIsFill b) j := by
  have hbit := h.drop.2 j
  rw [entries_cons hn, List.cons_append, Segments.bitAt, entryLen_cur, if_pos hj] at hbit
  rw [Nat.add_comm]
  exact hbit.symm

/-! ## Finding the next word -/

/-- What no operation on a batch changes. -/
structure SameFrame (b b' : BMBatchWords) : Prop where
  firstTid : b'.firstTid = b.firstTid
  maxNumOfWords : b'.maxNumOfWords = b.maxNumOfWords

theorem SameFrame.trans {b₁ b₂ b₃ : BMBatchWords} (h : SameFrame b₁ b₂) (h' : SameFrame b₂ b₃) :
    SameFrame b₁ b₃ :=
  ⟨h'.firstTid.trans h.firstTid, h'.maxNumOfWords.trans h.maxNumOfWords⟩

theorem findnextwordLoop_spec (nextReadNo : Nat) {n : Nat} (h : Reads c b) (hn : b.nwords ≤ n) :
    let b' := findnextwordLoop nextReadNo n b
    Reads c b' ∧ SameFrame b b' ∧ (b' = b ∨ b.nwordsread < b'.nwordsread) ∧
      (b'.nwordsread ≤ nextReadNo - 1 ∨ b' = b) ∧
      (b'.nwords = 0 ∨ nextReadNo - 1 ≤ b'.nwordsread) := by
  induction n generalizing b with
  | zero =>
    exact ⟨h, ⟨rfl, rfl⟩, Or.inl rfl, Or.inr rfl, Or.inl (Nat.le_zero.mp hn)⟩
  | succ n ih =>
    rw [findnextwordLoop]
    by_cases hgo : 0 < b.nwords ∧ b.nwordsread < nextReadNo - 1
    · rw [if_pos hgo]
      dsimp only
      -- One round, to a batch that has read more but not too much.
      have key : ∀ b₁ : BMBatchWords, Reads c b₁ → SameFrame b b₁ → b.nwordsread < b₁.nwordsread →
          b₁.nwordsread ≤ nextReadNo - 1 →
          (b₁.nwords ≤ n ∨ findnextwordLoop nextReadNo n b₁ = b₁ ∧ nextReadNo - 1 ≤ b₁.nwordsread) →
          let b' := findnextwordLoop nextReadNo n b₁
          Reads c b' ∧ SameFrame b b' ∧ (b' = b ∨ b.nwordsread < b'.nwordsread) ∧
            (b'.nwordsread ≤ nextReadNo - 1 ∨ b' = b) ∧
            (b'.nwords = 0 ∨ nextReadNo - 1 ≤ b'.nwordsread) := by
        intro b₁ r₁ r₂ r₃ r₄ r₅
        rcases r₅ with r₅ | ⟨r₅, r₆⟩
        · obtain ⟨i₁, i₂, i₃, i₄, i₅⟩ := ih r₁ r₅
          refine ⟨i₁, r₂.trans i₂, Or.inr ?_, Or.inl ?_, i₅⟩
          · rcases i₃ with i₃ | i₃
            · rw [i₃]
              exact r₃
            · omega
          · rcases i₄ with i₄ | i₄
            · exact i₄
            · rw [i₄]
              exact r₄
        · rw [r₅]
          exact ⟨r₁, r₂, Or.inr r₃, Or.inl r₄, Or.inr r₆⟩
      cases hf : curWordIsFill b with
      | true =>
        have hpos := h.fill_pos hgo.1 hf
        rw [if_pos rfl]
        by_cases hle : fillLength (curWord b) ≤ nextReadNo - b.nwordsread - 1
        · rw [if_pos hle]
          apply key
          · exact h.pass hgo.1 (by rw [curLength, hf]; rfl) rfl
          · exact ⟨rfl, rfl⟩
          · dsimp only
            omega
          · dsimp only
            omega
          · left
            dsimp only
            omega
        · rw [if_neg hle]
          apply key
          · exact h.shorten hgo.1 hf (by omega) (by dsimp only; omega)
              (entries_update hgo.1 rfl rfl rfl rfl)
          · exact ⟨rfl, rfl⟩
          · exact hgo.2
          · exact le_rfl
          · right
            refine ⟨?_, le_rfl⟩
            cases n with
            | zero => rfl
            | succ n =>
              rw [findnextwordLoop, if_neg]
              intro hgo'
              exact absurd hgo'.2 (lt_irrefl _)
      | false =>
        rw [if_neg Bool.false_ne_true]
        apply key
        · exact h.pass hgo.1 (by rw [curLength, hf]; rfl) rfl
        · exact ⟨rfl, rfl⟩
        · exact Nat.lt_succ_self _
        · exact hgo.2
        · left
          dsimp only
          omega
    · rw [if_neg hgo]
      refine ⟨h, ⟨rfl, rfl⟩, Or.inl rfl, Or.inr rfl, ?_⟩
      by_cases h0 : b.nwords = 0
      · exact Or.inl h0
      · exact Or.inr (by omega)

/-- **Finding a word.** The batch is brought to the word before `nextReadNo`, unless it ends. -/
theorem bitmapFindnextword_spec {nextReadNo : Nat} (h : Reads c b)
    (hle : b.nwordsread ≤ nextReadNo - 1) :
    let b' := bitmapFindnextword b nextReadNo
    Reads c b' ∧ SameFrame b b' ∧ b.nwordsread ≤ b'.nwordsread ∧ b'.nwordsread ≤ nextReadNo - 1 ∧
      (0 < b'.nwords → b'.nwordsread = nextReadNo - 1) ∧
      (0 < b.nwords → b'.nwords = 0 → b.nwordsread < b'.nwordsread) := by
  obtain ⟨h₁, h₂, h₃, h₄, h₅⟩ := findnextwordLoop_spec nextReadNo h le_rfl
  rw [bitmapFindnextword]
  generalize findnextwordLoop nextReadNo b.nwords b = b' at h₁ h₂ h₃ h₄ h₅ ⊢
  have hup : b'.nwordsread ≤ nextReadNo - 1 := by
    rcases h₄ with h₄ | rfl
    · exact h₄
    · exact hle
  refine ⟨h₁, h₂, ?_, hup, ?_, ?_⟩
  · rcases h₃ with rfl | h₃
    · exact le_rfl
    · exact h₃.le
  · intro hpos
    rcases h₅ with h₅ | h₅
    · omega
    · exact le_antisymm hup h₅
  · intro hpos hzero
    rcases h₃ with rfl | h₃
    · omega
    · exact h₃

end

/-! ## One round -/

/-- The or of the vectors at a position. -/
def anyBit (cs : List Content) (p : Nat) : Bool := cs.any fun c => bitAt c.all p

theorem anyBit_cons (c : Content) (cs : List Content) (p : Nat) :
    anyBit (c :: cs) p = (bitAt c.all p || anyBit cs p) := rfl

theorem anyBit_eq_true {cs : List Content} {c : Content} {p : Nat} (hc : c ∈ cs)
    (h : bitAt c.all p = true) : anyBit cs p = true := List.any_eq_true.mpr ⟨c, hc, h⟩

/-- The words read so far, in all batches. -/
def readSum (bs : List BMBatchWords) : Nat := (bs.map BMBatchWords.nwordsread).sum

theorem readSum_cons (b : BMBatchWords) (bs : List BMBatchWords) :
    readSum (b :: bs) = b.nwordsread + readSum bs := rfl

/-- What a round gives, when all batches are before the word `nextReadNo`. -/
structure RoundOk (nextReadNo : Nat) (cs : List Content) (bs : List BMBatchWords) (w : BmHrlWord)
    (r : UnionRound) : Prop where
  reads : List.Forall₂ Reads cs r.batches
  frame : List.Forall₂ SameFrame bs r.batches
  ne_nil : r.done = true → bs ≠ []
  onDone : r.done = true → ∀ b ∈ r.batches, b.nwordsread ≤ nextReadNo - 1
  onLiteral : r.done = false → r.orWordIsLiteral = true → r.nextReadNo = nextReadNo ∧
    (∀ b ∈ r.batches, b.nwordsread ≤ nextReadNo) ∧
    ∀ j < 64, r.orWord.getLsbD j = (w.getLsbD j || anyBit cs (64 * (nextReadNo - 1) + j))
  onFill : r.done = false → r.orWordIsLiteral = false → ∃ n, 0 < n ∧ n < 2 ^ 63 ∧
    r.nextReadNo = nextReadNo + n ∧ r.orWord = bmMakeFillWord true n ∧
    (∀ b ∈ r.batches, b.nwordsread ≤ nextReadNo + n - 1) ∧
    ∀ j < 64 * n, anyBit cs (64 * (nextReadNo - 1) + j) = true
  mono : readSum bs ≤ readSum r.batches
  progress : bs ≠ [] → (∀ b ∈ bs, 0 < b.nwords) → readSum bs < readSum r.batches

theorem Reads.nextWord {c : Content} {b : BMBatchWords} (h : Reads c b) (hn : 0 < b.nwords) :
    Reads c (nextWord b) := by
  rw [Bitmap.nextWord]
  cases hf : curWordIsFill b with
  | false => exact h.pass hn (by rw [curLength, hf]; rfl) rfl
  | true =>
    have hpos := h.fill_pos hn hf
    by_cases h1 : fillLength (curWord b) = 1
    · rw [if_neg (by simp [h1])]
      exact h.pass hn (by rw [curLength, hf, if_pos rfl, h1]) rfl
    · rw [if_pos (by simp [h1])]
      exact h.shorten hn hf (show 1 < fillLength (curWord b) by omega) rfl
        (entries_update hn rfl rfl rfl rfl)

theorem nextWord_read (b : BMBatchWords) : (nextWord b).nwordsread = b.nwordsread + 1 := by
  rw [nextWord]
  split_ifs <;> rfl

theorem sameFrame_nextWord (b : BMBatchWords) : SameFrame b (nextWord b) := by
  rw [nextWord]
  split_ifs <;> exact ⟨rfl, rfl⟩

/-- Resetting a word undoes reading it. -/
theorem resetWord_nextWord {b : BMBatchWords} (hn : 0 < b.nwords) :
    bitmapResetWord (nextWord b) b.startNo = b := by
  rw [nextWord]
  split_ifs
  · rw [bitmapResetWord, if_neg (lt_irrefl _)]
    dsimp only [curWord]
    rw [Function.update_self, BitVec.sub_add_cancel, Function.update_idem, Function.update_eq_self,
      Nat.add_sub_cancel]
  · rw [bitmapResetWord, if_pos (Nat.lt_succ_self _)]
    dsimp only
    rw [Nat.add_sub_cancel, Nat.sub_add_cancel hn]

/-- The or of the current word and another one, when the current word is not a run of ones. -/
theorem Reads.orWord {c : Content} {b : BMBatchWords} (h : Reads c b) (hn : 0 < b.nwords)
    (hzero : (curWordIsFill b && getFillBit (curWord b)) = false) (w : BmHrlWord) {j : Nat}
    (hj : j < 64) :
    (if curWordIsFill b then w else w ||| curWord b).getLsbD j =
      (w.getLsbD j || bitAt c.all (64 * b.nwordsread + j)) := by
  have hlen : 0 < curLength b := by
    rw [curLength]
    split_ifs with hf
    · exact h.fill_pos hn hf
    · decide
  rw [h.bit hn (by omega)]
  cases hf : curWordIsFill b with
  | true =>
    rw [hf, Bool.true_and] at hzero
    rw [if_pos rfl, entryBit_fill, hzero, Bool.or_false]
  | false => rw [if_neg Bool.false_ne_true, entryBit_literal, BitVec.getLsbD_or]

/-- What looking for the word `nextReadNo` gives. -/
structure FoundWord (nextReadNo : Nat) (c : Content) (b bch : BMBatchWords) : Prop where
  reads : Reads c bch
  frame : SameFrame b bch
  mono : b.nwordsread ≤ bch.nwordsread
  le : bch.nwordsread ≤ nextReadNo - 1
  at_word : 0 < bch.nwords → bch.nwordsread = nextReadNo - 1
  progress : 0 < b.nwords → bch.nwords = 0 → b.nwordsread < bch.nwordsread

theorem foundWord_findnextword {nextReadNo : Nat} {c : Content} {b : BMBatchWords} (h : Reads c b)
    (hle : b.nwordsread ≤ nextReadNo - 1) :
    FoundWord nextReadNo c b (bitmapFindnextword b nextReadNo) := by
  obtain ⟨f₁, f₂, f₃, f₄, f₅, f₆⟩ := bitmapFindnextword_spec h hle
  exact ⟨f₁, f₂, f₃, f₄, f₅, f₆⟩

theorem roundOk_nil (nextReadNo : Nat) (w : BmHrlWord) :
    RoundOk nextReadNo [] [] w ⟨[], false, nextReadNo, w, true, false⟩ := by
  refine ⟨.nil, .nil, ?_, ?_, ?_, ?_, le_rfl, fun hne => absurd rfl hne⟩
  · intro hdone
    exact absurd hdone Bool.false_ne_true
  · intro _ b hb
    exact absurd hb List.not_mem_nil
  · intro _ _
    refine ⟨rfl, fun b hb => absurd hb List.not_mem_nil, ?_⟩
    intro j _
    exact (Bool.or_false _).symm
  · intro _ hlit
    exact absurd hlit.symm Bool.false_ne_true

section

variable {nextReadNo : Nat} {c : Content} {cs : List Content} {b bch : BMBatchWords}
  {bs : List BMBatchWords}

/-- A round that comes to a batch without words. -/
theorem FoundWord.round_empty (h : FoundWord nextReadNo c b bch) (hbs : List.Forall₂ Reads cs bs)
    (hle : ∀ b ∈ bs, b.nwordsread ≤ nextReadNo - 1) (hempty : bch.nwords = 0) (w : BmHrlWord) :
    RoundOk nextReadNo (c :: cs) (b :: bs) w ⟨bch :: bs, true, nextReadNo, w, true, false⟩ := by
  have hmono := h.mono
  have hframe : List.Forall₂ SameFrame bs bs := List.forall₂_same.mpr fun _ _ => ⟨rfl, rfl⟩
  refine ⟨.cons h.reads hbs, .cons h.frame hframe, fun _ => List.cons_ne_nil _ _, ?_, ?_,
    ?_, ?_, ?_⟩
  · intro _ b' hb'
    rcases List.mem_cons.mp hb' with rfl | hb'
    · exact h.le
    · exact hle b' hb'
  · intro hdone
    exact absurd hdone.symm Bool.false_ne_true
  · intro hdone
    exact absurd hdone.symm Bool.false_ne_true
  · rw [readSum_cons, readSum_cons]
    omega
  · intro _ hpos
    have := h.progress (hpos b (List.mem_cons_self ..)) hempty
    rw [readSum_cons, readSum_cons]
    omega

/-- A round that ends at a run of ones. -/
theorem FoundWord.round_ones (h : FoundWord nextReadNo c b bch) (hN : 0 < nextReadNo)
    (hbs : List.Forall₂ Reads cs bs) (hle : ∀ b ∈ bs, b.nwordsread ≤ nextReadNo - 1)
    (hn : 0 < bch.nwords) (hones : (curWordIsFill bch && getFillBit (curWord bch)) = true)
    (w : BmHrlWord) (lastEmpty : Bool) :
    RoundOk nextReadNo (c :: cs) (b :: bs) w
      ⟨{ bch with
          nwordsread := bch.nwordsread + fillLength (curWord bch)
          startNo := bch.startNo + 1
          nwords := bch.nwords - 1 } :: bs, false, bch.nwordsread + fillLength (curWord bch) + 1,
        bmMakeFillWord true (bch.nwordsread + fillLength (curWord bch) + 1 - nextReadNo), false,
        lastEmpty⟩ := by
  rw [Bool.and_eq_true] at hones
  have hmono := h.mono
  have hread := h.at_word hn
  have hpos := h.reads.fill_pos hn hones.1
  have hlen : curLength bch = fillLength (curWord bch) := by
    rw [curLength, hones.1, if_pos rfl]
  have hsub : bch.nwordsread + fillLength (curWord bch) + 1 - nextReadNo =
      fillLength (curWord bch) := by omega
  have hframe : List.Forall₂ SameFrame bs bs := List.forall₂_same.mpr fun _ _ => ⟨rfl, rfl⟩
  refine ⟨.cons (h.reads.pass hn (by rw [hlen]) rfl) hbs,
    .cons ⟨h.frame.firstTid, h.frame.maxNumOfWords⟩ hframe,
    fun _ => List.cons_ne_nil _ _, ?_, ?_, ?_, ?_, ?_⟩
  · intro hdone
    exact absurd hdone Bool.false_ne_true
  · intro _ hlit
    exact absurd hlit Bool.false_ne_true
  · intro _ _
    refine ⟨fillLength (curWord bch), hpos, fillLength_lt _, ?_, ?_, ?_, ?_⟩
    · dsimp only
      omega
    · dsimp only
      rw [hsub]
    · intro b' hb'
      rcases List.mem_cons.mp hb' with rfl | hb'
      · dsimp only
        omega
      · have := hle b' hb'
        omega
    · intro j hj
      apply anyBit_eq_true (List.mem_cons_self ..)
      rw [← hread, h.reads.bit hn (by rw [hlen]; exact hj), hones.1, entryBit_fill]
      exact hones.2
  · rw [readSum_cons, readSum_cons]
    dsimp only
    omega
  · intro _ _
    rw [readSum_cons, readSum_cons]
    dsimp only
    omega

/-- A round that reads the word of a batch and goes on with the others. The batch is reset when one
of those has no words left. -/
theorem FoundWord.round_cons (h : FoundWord nextReadNo c b bch) (hN : 0 < nextReadNo)
    (hn : 0 < bch.nwords) (hones : (curWordIsFill bch && getFillBit (curWord bch)) = false)
    {w : BmHrlWord} {r : UnionRound}
    (hr : RoundOk nextReadNo cs bs (if curWordIsFill bch then w else w ||| curWord bch) r) :
    RoundOk nextReadNo (c :: cs) (b :: bs) w
      { r with batches := (if r.done then bch else nextWord bch) :: r.batches } := by
  have hmono := hr.mono
  have hbmono := h.mono
  have hread := h.at_word hn
  have hnext := nextWord_read bch
  obtain ⟨k₁, k₂⟩ : Reads c (if r.done then bch else nextWord bch) ∧
      SameFrame b (if r.done then bch else nextWord bch) := by
    split_ifs
    · exact ⟨h.reads, h.frame⟩
    · exact ⟨h.reads.nextWord hn, h.frame.trans (sameFrame_nextWord bch)⟩
  refine ⟨.cons k₁ hr.reads, .cons k₂ hr.frame, fun _ => List.cons_ne_nil _ _, ?_, ?_, ?_, ?_, ?_⟩
  · intro hdone b' hb'
    dsimp only at hdone hb'
    rw [hdone, if_pos rfl] at hb'
    rcases List.mem_cons.mp hb' with rfl | hb'
    · exact h.le
    · exact hr.onDone hdone b' hb'
  · intro hdone hlit
    obtain ⟨l₁, l₂, l₃⟩ := hr.onLiteral hdone hlit
    refine ⟨l₁, ?_, ?_⟩
    · intro b' hb'
      dsimp only at hdone hb'
      rw [hdone, if_neg Bool.false_ne_true] at hb'
      rcases List.mem_cons.mp hb' with rfl | hb'
      · omega
      · exact l₂ b' hb'
    · intro j hj
      dsimp only
      rw [l₃ j hj, h.reads.orWord hn hones w hj, hread, anyBit_cons, Bool.or_assoc]
  · intro hdone hlit
    obtain ⟨n, l₁, l₂, l₃, l₄, l₅, l₆⟩ := hr.onFill hdone hlit
    refine ⟨n, l₁, l₂, l₃, l₄, ?_, ?_⟩
    · intro b' hb'
      dsimp only at hdone hb'
      rw [hdone, if_neg Bool.false_ne_true] at hb'
      rcases List.mem_cons.mp hb' with rfl | hb'
      · omega
      · exact l₅ b' hb'
    · intro j hj
      rw [anyBit_cons, l₆ j hj, Bool.or_true]
  · rw [readSum_cons, readSum_cons]
    split_ifs <;> omega
  · intro _ hpos
    rw [readSum_cons, readSum_cons]
    split_ifs with hdone
    · -- The reset came from a later batch.
      have := hr.progress (hr.ne_nil hdone) fun b' hb' => hpos b' (List.mem_cons_of_mem _ hb')
      omega
    · omega

end

/-- **One round.** -/
theorem unionRound_spec {nextReadNo : Nat} (hN : 0 < nextReadNo) {cs : List Content}
    {bs : List BMBatchWords} (h : List.Forall₂ Reads cs bs)
    (hle : ∀ b ∈ bs, b.nwordsread ≤ nextReadNo - 1) (w : BmHrlWord) :
    RoundOk nextReadNo cs bs w (unionRound nextReadNo bs w) := by
  induction h generalizing w with
  | nil => exact roundOk_nil nextReadNo w
  | @cons c b cs bs hb hbs ih =>
    have hle' : ∀ b ∈ bs, b.nwordsread ≤ nextReadNo - 1 :=
      fun b' hb' => hle b' (List.mem_cons_of_mem _ hb')
    have hfound := foundWord_findnextword hb (hle b (List.mem_cons_self ..))
    rw [unionRound]
    generalize bitmapFindnextword b nextReadNo = bch at hfound ⊢
    dsimp only
    by_cases hempty : bch.nwords = 0
    · rw [if_pos hempty]
      exact hfound.round_empty hbs hle' hempty w
    · have hn : 0 < bch.nwords := Nat.pos_of_ne_zero hempty
      rw [if_neg hempty]
      by_cases hones : (curWordIsFill bch && getFillBit (curWord bch)) = true
      · rw [if_pos hones]
        exact hfound.round_ones hN hbs hle' hn hones w _
      · rw [if_neg hones, resetWord_nextWord hn]
        exact hfound.round_cons hN hn (Bool.not_eq_true _ ▸ hones) (ih hle' _)

/-! ## The result words -/

/-- The first `n` uncompressed words of `T`. -/
def Covers (T : Nat → Bool) (es : List Entry) (n : Nat) : Prop :=
  numBits es = 64 * n ∧ ∀ p < 64 * n, bitAt es p = T p

theorem Covers.push {T : Nat → Bool} {es : List Entry} {n k : Nat} (h : Covers T es n) {e : Entry}
    (hlen : entryLen e = 64 * k) (hbit : ∀ j < 64 * k, entryBit e j = T (64 * n + j)) :
    Covers T (es ++ [e]) (n + k) := by
  have htot : Segments.total entryLen es = 64 * n := h.1
  constructor
  · rw [numBits_append, h.1, Nat.mul_add, ← hlen]
    rfl
  · intro p hp
    rw [bitAt, Segments.bitAt_append, htot]
    split_ifs with hlt
    · exact h.2 p hlt
    · have hk : p - 64 * n < 64 * k := by omega
      rw [Segments.bitAt_singleton, hlen, decide_eq_true hk, Bool.true_and, hbit _ hk]
      congr 1
      omega

structure ResultOk (max : Nat) (result : BMBatchWords) : Prop where
  start : result.startNo = 0
  maxWords : result.maxNumOfWords = max
  clean : CleanFrom result.hwords max result.nwords

theorem pushWord_spec {max : Nat} {result : BMBatchWords} (h : ResultOk max result)
    (hlt : result.nwords < max) (w : BmHrlWord) (f : Bool) :
    ResultOk max (pushWord result w f) ∧
      (pushWord result w f).entries = result.entries ++ [(w, f)] := by
  have hh : ∀ i < max, isFillWord (pushWord result w f).hwords i =
      if i = result.nwords then f else isFillWord result.hwords i := by
    intro i hi
    rw [pushWord]
    dsimp only
    cases f with
    | false =>
      rw [if_neg Bool.false_ne_true]
      split_ifs with hi'
      · rw [hi']
        exact h.clean _ le_rfl hlt
      · rfl
    | true =>
      rw [if_pos rfl, isFillWord_setBit]
      split_ifs with hi'
      · rw [decide_eq_true hi', Bool.or_true]
      · rw [decide_eq_false hi', Bool.or_false]
  refine ⟨⟨h.start, h.maxWords, ?_⟩, ?_⟩
  · intro i hi hi'
    have hi₀ : result.nwords + 1 ≤ i := hi
    rw [hh i hi', if_neg (by omega)]
    exact h.clean i (by omega) hi'
  · have hstart : (pushWord result w f).startNo = 0 := h.start
    rw [BMBatchWords.entries, BMBatchWords.entries, hstart, h.start]
    apply entriesFrom_push
    · intro i hi
      exact Function.update_of_ne (by omega) _ _
    · intro i hi
      rw [hh i (by omega), if_neg (by omega)]
    · rw [hh _ hlt, if_pos rfl]
      exact Prod.ext (Function.update_self ..) rfl

/-- The batches and the result, when all words before `nextReadNo` are in the result or came out
before it. -/
structure LoopInv (T : Nat → Bool) (cs : List Content) (out : List Entry) (max : Nat)
    (bs : List BMBatchWords) (result : BMBatchWords) (nextReadNo : Nat) : Prop where
  pos : 0 < nextReadNo
  reads : List.Forall₂ Reads cs bs
  le : ∀ b ∈ bs, b.nwordsread ≤ nextReadNo - 1
  resultOk : ResultOk max result
  target : ∀ p, 64 * (nextReadNo - 1) ≤ p → T p = anyBit cs p
  covers : Covers T (out ++ result.entries) (nextReadNo - 1)

theorem forall₂_sameFrame_trans {bs₁ bs₂ bs₃ : List BMBatchWords}
    (h : List.Forall₂ SameFrame bs₁ bs₂) (h' : List.Forall₂ SameFrame bs₂ bs₃) :
    List.Forall₂ SameFrame bs₁ bs₃ := by
  induction h generalizing bs₃ with
  | nil =>
    cases h'
    exact .nil
  | cons hb _ ih =>
    cases h' with
    | cons hb' hbs' => exact .cons (hb.trans hb') (ih hbs')

/-- The word of a round continues the result. -/
theorem LoopInv.round {T : Nat → Bool} {cs : List Content} {out : List Entry} {max nextReadNo : Nat}
    {bs : List BMBatchWords} {result : BMBatchWords} (h : LoopInv T cs out max bs result nextReadNo)
    (hlt : result.nwords < max) {r : UnionRound}
    (hr : RoundOk nextReadNo cs bs literalAllZero r) (hdone : r.done = false) :
    let nextReadNo' := if r.orWordIsLiteral then r.nextReadNo + 1 else r.nextReadNo
    LoopInv T cs out max r.batches (pushWord result r.orWord (!r.orWordIsLiteral)) nextReadNo' ∧
      nextReadNo ≤ nextReadNo' := by
  obtain ⟨p₁, p₂⟩ := pushWord_spec h.resultOk hlt r.orWord (!r.orWordIsLiteral)
  have hpos := h.pos
  cases hlit : r.orWordIsLiteral with
  | true =>
    obtain ⟨l₁, l₂, l₃⟩ := hr.onLiteral hdone hlit
    rw [hlit] at p₁ p₂
    dsimp only
    rw [if_pos rfl, l₁]
    refine ⟨⟨Nat.succ_pos _, hr.reads, l₂, p₁, ?_, ?_⟩, Nat.le_succ _⟩
    · intro p hp
      exact h.target p (by omega)
    · rw [p₂, ← List.append_assoc, show nextReadNo + 1 - 1 = nextReadNo - 1 + 1 by omega]
      refine h.covers.push (entryLen_literal _) ?_
      intro j hj
      rw [Bool.not_true, entryBit_literal, l₃ j (by omega), BitVec.getLsbD_zero, Bool.false_or,
        h.target _ (by omega)]
  | false =>
    obtain ⟨n, l₁, l₂, l₃, l₄, l₅, l₆⟩ := hr.onFill hdone hlit
    rw [hlit] at p₁ p₂
    dsimp only
    rw [if_neg Bool.false_ne_true, l₃]
    refine ⟨⟨by omega, hr.reads, l₅, p₁, ?_, ?_⟩, by omega⟩
    · intro p hp
      exact h.target p (by omega)
    · rw [p₂, ← List.append_assoc, show nextReadNo + n - 1 = nextReadNo - 1 + n by omega, l₄]
      refine h.covers.push ?_ ?_
      · rw [Bool.not_false, entryLen_fill, fillLength_make true l₂, Nat.mul_comm]
      · intro j hj
        rw [Bool.not_false, entryBit_fill, getFillBit_make true l₂, h.target _ (by omega), l₆ j hj]

/-- **The rounds of a call.** -/
theorem unionLoop_spec {T : Nat → Bool} {cs : List Content} {out : List Entry}
    {max n nextReadNo : Nat} {bs : List BMBatchWords} {result : BMBatchWords}
    (h : LoopInv T cs out max bs result nextReadNo)
    (hn : result.nwords + n ≤ max) :
    let r := unionLoop n bs result nextReadNo
    LoopInv T cs out max r.1 r.2.1 r.2.2 ∧ List.Forall₂ SameFrame bs r.1 ∧ nextReadNo ≤ r.2.2 ∧
      readSum bs ≤ readSum r.1 ∧
      (0 < n → bs ≠ [] → (∀ b ∈ bs, 0 < b.nwords) → readSum bs < readSum r.1) := by
  induction n generalizing bs result nextReadNo with
  | zero =>
    exact ⟨h, List.forall₂_same.mpr fun _ _ => ⟨rfl, rfl⟩, le_rfl, le_rfl,
      fun h0 => absurd h0 (lt_irrefl _)⟩
  | succ n ih =>
    have hr := unionRound_spec h.pos h.reads h.le literalAllZero
    rw [unionLoop]
    generalize unionRound nextReadNo bs literalAllZero = r at hr ⊢
    dsimp only
    cases hdone : r.done with
    | true =>
      rw [if_pos rfl]
      exact ⟨⟨h.pos, hr.reads, hr.onDone hdone, h.resultOk, h.target, h.covers⟩, hr.frame, le_rfl,
        hr.mono, fun _ => hr.progress⟩
    | false =>
      rw [if_neg Bool.false_ne_true]
      obtain ⟨h', hle⟩ := h.round (by omega) hr hdone
      have hnw : (pushWord result r.orWord (!r.orWordIsLiteral)).nwords = result.nwords + 1 := rfl
      cases hlast : r.lastEmpty with
      | true =>
        rw [if_pos rfl]
        exact ⟨h', hr.frame, hle, hr.mono, fun _ => hr.progress⟩
      | false =>
        rw [if_neg Bool.false_ne_true]
        obtain ⟨i₁, i₂, i₃, i₄, -⟩ := ih h' (by omega)
        refine ⟨i₁, forall₂_sameFrame_trans hr.frame i₂, hle.trans i₃, hr.mono.trans i₄, ?_⟩
        intro _ hne hpos
        exact (hr.progress hne hpos).trans_le i₄

/-! ## Fast forward -/

/-- The batch is at a fill word of zeros. -/
def atZeros (b : BMBatchWords) : Bool := curWordIsFill b && !getFillBit (curWord b)

/-- If all batches are at zeros, then the first of them is at the word before `nextread`, and the
shortest of the runs, counted from `nextread` on, lies in all of the runs. -/
def fastForwardOk (batches : List BMBatchWords) : Bool :=
  match batches with
  | [] => true
  | b₀ :: _ => batches.any (fun b => !atZeros b) || (b₀.nwordsread + 1 == b₀.nextread &&
      batches.any fun b => batches.all fun b' =>
        b₀.nextread - 1 - b'.nwordsread + fillLength (curWord b) ≤ fillLength (curWord b'))

theorem fastForwardLoop_none {bs : List BMBatchWords} (h : ∃ b ∈ bs, atZeros b = false)
    (minTid words : Nat) : fastForwardLoop bs minTid words = none := by
  induction bs generalizing minTid words with
  | nil =>
    obtain ⟨b, hb, -⟩ := h
    exact absurd hb List.not_mem_nil
  | cons b bs ih =>
    rw [fastForwardLoop]
    cases hz : atZeros b with
    | false =>
      rw [atZeros] at hz
      rw [hz, if_neg Bool.false_ne_true]
    | true =>
      have hrest : ∃ b ∈ bs, atZeros b = false := by
        obtain ⟨b', hb', hz'⟩ := h
        rcases List.mem_cons.mp hb' with rfl | hb'
        · rw [hz] at hz'
          exact absurd hz'.symm Bool.false_ne_true
        · exact ⟨b', hb', hz'⟩
      rw [atZeros] at hz
      rw [hz, if_pos rfl]
      dsimp only
      split_ifs
      · exact ih hrest _ _
      · exact ih hrest _ _

theorem fastForwardLoop_le {bs : List BMBatchWords} (hz : ∀ b ∈ bs, atZeros b = true)
    (hsmall : ∀ b ∈ bs, b.firstTid = 0 ∧ fillLength (curWord b) * 64 < 2 ^ 63) (words : Nat) :
    ∃ n, fastForwardLoop bs (words * 64) words = some n ∧ n ≤ words ∧
      (∀ b ∈ bs, n ≤ fillLength (curWord b)) ∧
      (n = words ∨ ∃ b ∈ bs, n = fillLength (curWord b)) := by
  induction bs generalizing words with
  | nil => exact ⟨words, rfl, le_rfl, fun b hb => absurd hb List.not_mem_nil, Or.inl rfl⟩
  | cons b bs ih =>
    have ih := ih (fun b' hb' => hz b' (List.mem_cons_of_mem _ hb'))
      (fun b' hb' => hsmall b' (List.mem_cons_of_mem _ hb'))
    have hzero : (curWordIsFill b && !getFillBit (curWord b)) = true := hz b (List.mem_cons_self ..)
    obtain ⟨hfirst, hlen⟩ := hsmall b (List.mem_cons_self ..)
    have htid : (b.firstTid + fillLength (curWord b) * 64) % 2 ^ 64 =
        fillLength (curWord b) * 64 := by
      omega
    rw [fastForwardLoop, hzero, if_pos rfl]
    dsimp only
    rw [htid]
    by_cases hlt : fillLength (curWord b) * 64 < words * 64
    · rw [if_pos hlt]
      obtain ⟨n, i₁, i₂, i₃, i₄⟩ := ih (fillLength (curWord b))
      refine ⟨n, i₁, by omega, ?_, Or.inr ?_⟩
      · intro b' hb'
        rcases List.mem_cons.mp hb' with rfl | hb'
        · exact i₂
        · exact i₃ b' hb'
      · rcases i₄ with i₄ | ⟨b', hb', i₄⟩
        · exact ⟨b, List.mem_cons_self .., i₄⟩
        · exact ⟨b', List.mem_cons_of_mem _ hb', i₄⟩
    · rw [if_neg hlt]
      obtain ⟨n, i₁, i₂, i₃, i₄⟩ := ih words
      refine ⟨n, i₁, i₂, ?_, ?_⟩
      · intro b' hb'
        rcases List.mem_cons.mp hb' with rfl | hb'
        · omega
        · exact i₃ b' hb'
      · rcases i₄ with i₄ | ⟨b', hb', i₄⟩
        · exact Or.inl i₄
        · exact Or.inr ⟨b', List.mem_cons_of_mem _ hb', i₄⟩

/-- The shortest of the runs. -/
theorem fastForwardLoop_some {bs : List BMBatchWords} (hne : bs ≠ [])
    (hz : ∀ b ∈ bs, atZeros b = true)
    (hsmall : ∀ b ∈ bs, b.firstTid = 0 ∧ fillLength (curWord b) * 64 < 2 ^ 63) :
    ∃ n, fastForwardLoop bs (2 ^ 64 - 1) 0 = some n ∧ (∀ b ∈ bs, n ≤ fillLength (curWord b)) ∧
      ∃ b ∈ bs, n = fillLength (curWord b) := by
  cases bs with
  | nil => exact absurd rfl hne
  | cons b bs =>
    have hzero : (curWordIsFill b && !getFillBit (curWord b)) = true := hz b (List.mem_cons_self ..)
    obtain ⟨hfirst, hlen⟩ := hsmall b (List.mem_cons_self ..)
    have htid : (b.firstTid + fillLength (curWord b) * 64) % 2 ^ 64 =
        fillLength (curWord b) * 64 := by
      omega
    rw [fastForwardLoop, hzero, if_pos rfl]
    dsimp only
    rw [htid, if_pos (by omega)]
    obtain ⟨n, i₁, i₂, i₃, i₄⟩ :=
      fastForwardLoop_le (fun b' hb' => hz b' (List.mem_cons_of_mem _ hb'))
      (fun b' hb' => hsmall b' (List.mem_cons_of_mem _ hb')) (fillLength (curWord b))
    refine ⟨n, i₁, ?_, ?_⟩
    · intro b' hb'
      rcases List.mem_cons.mp hb' with rfl | hb'
      · exact i₂
      · exact i₃ b' hb'
    · rcases i₄ with i₄ | ⟨b', hb', i₄⟩
      · exact ⟨b, List.mem_cons_self .., i₄⟩
      · exact ⟨b', List.mem_cons_of_mem _ hb', i₄⟩

/-- The batches of a call: those that have words, all to be read at the same word next. -/
structure BatchesOk (cs : List Content) (bs : List BMBatchWords) (nextReadNo : Nat) : Prop where
  ne_nil : bs ≠ []
  words : ∀ b ∈ bs, 0 < b.nwords
  next : ∀ b ∈ bs, b.nextread = nextReadNo
  firstTid : ∀ b ∈ bs, b.firstTid = 0
  bound : ∀ c ∈ cs, numBits c.all < 2 ^ 63

theorem Reads.fill_small {c : Content} {b : BMBatchWords} (h : Reads c b) (hn : 0 < b.nwords)
    (hf : curWordIsFill b = true) (hbound : numBits c.all < 2 ^ 63) :
    fillLength (curWord b) * 64 < 2 ^ 63 := by
  have htot : numBits c.all = 64 * b.nwordsread + numBits (b.entries ++ c.later) := h.drop.1
  rw [entries_cons hn, hf, numBits_append] at htot
  have hcons : numBits ((curWord b, true) :: b.tail) =
      fillLength (curWord b) * 64 + numBits b.tail := by
    rw [numBits, Segments.total_cons, entryLen_fill]
  omega

/-- Only the next word to read changes. -/
theorem Reads.setNext {c : Content} {b : BMBatchWords} (h : Reads c b) (n : Nat) :
    Reads c { b with nextread := n } := ⟨h.drop, h.fills⟩

theorem forall₂_reads_setNext {cs : List Content} {bs : List BMBatchWords}
    (h : List.Forall₂ Reads cs bs) (f : BMBatchWords → Nat) :
    List.Forall₂ Reads cs (bs.map fun b => { b with nextread := f b }) := by
  rw [List.forall₂_map_right_iff]
  exact h.imp fun c b hb => hb.setNext (f b)

theorem readSum_setNext (bs : List BMBatchWords) (f : BMBatchWords → Nat) :
    readSum (bs.map fun b => { b with nextread := f b }) = readSum bs := by
  rw [readSum, readSum, List.map_map]
  rfl

theorem exists_of_forall₂ {α β : Type*} {R : α → β → Prop} {as : List α} {bs : List β}
    (h : List.Forall₂ R as bs) {b : β} (hb : b ∈ bs) : ∃ a ∈ as, R a b := by
  induction h with
  | nil => exact absurd hb List.not_mem_nil
  | cons hab _ ih =>
    rcases List.mem_cons.mp hb with rfl | hb
    · exact ⟨_, List.mem_cons_self .., hab⟩
    · obtain ⟨a, ha, hR⟩ := ih hb
      exact ⟨a, List.mem_cons_of_mem _ ha, hR⟩

/-- Zeros in every batch are zeros of the or. -/
theorem anyBit_zeros {cs : List Content} {bs : List BMBatchWords} (h : List.Forall₂ Reads cs bs)
    {m n : Nat} (hwords : ∀ b ∈ bs, 0 < b.nwords) (hz : ∀ b ∈ bs, atZeros b = true)
    (hle : ∀ b ∈ bs, b.nwordsread ≤ m)
    (hlen : ∀ b ∈ bs, m - b.nwordsread + n ≤ fillLength (curWord b)) {j : Nat} (hj : j < 64 * n) :
    anyBit cs (64 * m + j) = false := by
  induction h with
  | nil => rfl
  | @cons c b cs bs hb _ ih =>
    have hzero := hz b (List.mem_cons_self ..)
    have hread := hle b (List.mem_cons_self ..)
    have hfill := hlen b (List.mem_cons_self ..)
    rw [atZeros, Bool.and_eq_true, Bool.not_eq_true'] at hzero
    have hcur : curLength b = fillLength (curWord b) := by
      rw [curLength, hzero.1, if_pos rfl]
    have hpos : 64 * m + j = 64 * b.nwordsread + (64 * (m - b.nwordsread) + j) := by omega
    have hbit := hb.bit (hwords b (List.mem_cons_self ..))
      (show 64 * (m - b.nwordsread) + j < 64 * curLength b by omega)
    rw [hzero.1, entryBit_fill, hzero.2, ← hpos] at hbit
    rw [anyBit_cons, hbit, Bool.false_or]
    exact ih (fun b' hb' => hwords b' (List.mem_cons_of_mem _ hb'))
      (fun b' hb' => hz b' (List.mem_cons_of_mem _ hb'))
      (fun b' hb' => hle b' (List.mem_cons_of_mem _ hb'))
      (fun b' hb' => hlen b' (List.mem_cons_of_mem _ hb'))

/-- **Skipping zeros.** -/
theorem fastForward_spec {T : Nat → Bool} {cs : List Content} {out : List Entry}
    {max nextReadNo : Nat} {bs : List BMBatchWords} {result : BMBatchWords}
    (h : LoopInv T cs out max bs result nextReadNo) (hb : BatchesOk cs bs nextReadNo)
    (hempty : result.nwords = 0) (hmax : 0 < max) (hok : fastForwardOk bs = true) :
    let r := fastForward bs result
    ∃ n, ((r.1.head?).map BMBatchWords.nextread).getD 0 = n ∧ LoopInv T cs out max r.1 r.2 n ∧
      nextReadNo ≤ n ∧ r.2.nwords ≤ 1 ∧ readSum r.1 = readSum bs ∧ r.1 ≠ [] ∧
      (∀ b ∈ r.1, 0 < b.nwords) ∧ (∀ b ∈ r.1, b.firstTid = 0) := by
  obtain ⟨b₀, bs₀, hbs⟩ : ∃ b₀ bs₀, bs = b₀ :: bs₀ := List.exists_cons_of_ne_nil hb.ne_nil
  have hmem : b₀ ∈ bs := by rw [hbs]; exact List.mem_cons_self ..
  have hstay : fastForward bs result = (bs, result) →
      let r := fastForward bs result
      ∃ n, ((r.1.head?).map BMBatchWords.nextread).getD 0 = n ∧ LoopInv T cs out max r.1 r.2 n ∧
        nextReadNo ≤ n ∧ r.2.nwords ≤ 1 ∧ readSum r.1 = readSum bs ∧ r.1 ≠ [] ∧
        (∀ b ∈ r.1, 0 < b.nwords) ∧ (∀ b ∈ r.1, b.firstTid = 0) := by
    intro heq
    rw [heq]
    refine ⟨nextReadNo, ?_, h, le_rfl, by rw [hempty]; decide, rfl, hb.ne_nil, hb.words,
      hb.firstTid⟩
    rw [hbs]
    exact hb.next b₀ hmem
  by_cases hz : ∃ b ∈ bs, atZeros b = false
  · apply hstay
    rw [fastForward, fastForwardLoop_none hz]
  · have hzeros : ∀ b ∈ bs, atZeros b = true := by
      intro b hb'
      rw [← Bool.not_eq_false]
      intro hfalse
      exact hz ⟨b, hb', hfalse⟩
    have hsmall : ∀ b ∈ bs, b.firstTid = 0 ∧ fillLength (curWord b) * 64 < 2 ^ 63 := by
      intro b hb'
      obtain ⟨c, hc, hr⟩ := exists_of_forall₂ h.reads hb'
      have hzero := hzeros b hb'
      rw [atZeros, Bool.and_eq_true] at hzero
      exact ⟨hb.firstTid b hb', hr.fill_small (hb.words b hb') hzero.1 (hb.bound c hc)⟩
    obtain ⟨n, n₁, n₂, b₁, hb₁, n₃⟩ := fastForwardLoop_some hb.ne_nil hzeros hsmall
    have hn : 0 < n := by
      obtain ⟨c, hc, hr⟩ := exists_of_forall₂ h.reads hb₁
      have hzero := hzeros b₁ hb₁
      rw [atZeros, Bool.and_eq_true] at hzero
      rw [n₃]
      exact hr.fill_pos (hb.words b₁ hb₁) hzero.1
    -- The condition: the run lies in all of them.
    have hnext := hb.next b₀ hmem
    have hcond : b₀.nwordsread + 1 = nextReadNo ∧
        ∀ b ∈ bs, nextReadNo - 1 - b.nwordsread + n ≤ fillLength (curWord b) := by
      have hok' := hok
      rw [hbs, fastForwardOk, ← hbs, hnext, Bool.or_eq_true, Bool.and_eq_true, beq_iff_eq] at hok'
      rcases hok' with hany | ⟨hfirst, hshort⟩
      · obtain ⟨b, hb', hfalse⟩ := List.any_eq_true.mp hany
        rw [hzeros b hb'] at hfalse
        exact absurd hfalse Bool.false_ne_true
      · refine ⟨hfirst, ?_⟩
        obtain ⟨b₂, hb₂, hall⟩ := List.any_eq_true.mp hshort
        intro b hb'
        have hle := List.all_eq_true.mp hall b hb'
        rw [decide_eq_true_eq] at hle
        have := n₂ b₂ hb₂
        omega
    have hff : fastForward bs result =
        (bs.map fun b => { b with nextread := b.nwordsread + n + 1 },
          pushWord result (BitVec.ofNat 64 n) true) := by
      rw [fastForward, n₁]
      dsimp only
      rw [if_pos hn]
    have hword : BitVec.ofNat 64 n = bmMakeFillWord false n := by
      rw [bmMakeFillWord, if_neg Bool.false_ne_true, BitVec.zero_shiftLeft, BitVec.zero_or]
    have hbig : n < 2 ^ 63 := by
      rw [n₃]
      exact fillLength_lt _
    obtain ⟨p₁, p₂⟩ := pushWord_spec h.resultOk (by omega) (BitVec.ofNat 64 n) true
    rw [hff]
    have hpos := h.pos
    refine ⟨nextReadNo + n, ?_,
      ⟨by omega, forall₂_reads_setNext h.reads _, ?_, p₁, ?_, ?_⟩, by omega,
      ?_, readSum_setNext bs _, ?_, ?_, ?_⟩
    · rw [hbs]
      show b₀.nwordsread + n + 1 = nextReadNo + n
      omega
    · intro b hb'
      obtain ⟨b', hb'', rfl⟩ := List.mem_map.mp hb'
      have := h.le b' hb''
      dsimp only
      omega
    · intro p hp
      exact h.target p (by omega)
    · rw [p₂, ← List.append_assoc, show nextReadNo + n - 1 = nextReadNo - 1 + n by omega, hword]
      refine h.covers.push ?_ ?_
      · rw [entryLen_fill, fillLength_make false hbig, Nat.mul_comm]
      · intro j hj
        rw [entryBit_fill, getFillBit_make false hbig, h.target _ (by omega),
          anyBit_zeros h.reads hb.words hzeros h.le hcond.2 hj]
    · show result.nwords + 1 ≤ 1
      omega
    · intro hnil
      exact hb.ne_nil (List.map_eq_nil_iff.mp hnil)
    · intro b hb'
      obtain ⟨b', hb'', rfl⟩ := List.mem_map.mp hb'
      exact hb.words b' hb''
    · intro b hb'
      obtain ⟨b', hb'', rfl⟩ := List.mem_map.mp hb'
      exact hb.firstTid b' hb''

theorem firstTid_of_sameFrame {bs bs' : List BMBatchWords} (h : List.Forall₂ SameFrame bs bs')
    (hfirst : ∀ b ∈ bs, b.firstTid = 0) : ∀ b ∈ bs', b.firstTid = 0 := by
  intro b hb
  obtain ⟨b', hb', hframe⟩ := exists_of_forall₂ h hb
  rw [hframe.firstTid]
  exact hfirst b' hb'

/-- **The union of batches.** A call continues the or of the vectors, and reads at least one
word. -/
theorem bitmapUnion_spec {T : Nat → Bool} {cs : List Content} {out : List Entry}
    {max nextReadNo : Nat} {bs : List BMBatchWords} {result : BMBatchWords}
    (h : LoopInv T cs out max bs result nextReadNo) (hb : BatchesOk cs bs nextReadNo)
    (hempty : result.nwords = 0) (hmax : 1 < max) (hok : fastForwardOk bs = true) :
    let r := bitmapUnion bs result
    ∃ n, nextReadNo ≤ n ∧ List.Forall₂ Reads cs r.1 ∧ (∀ b ∈ r.1, b.nwordsread ≤ n - 1) ∧
      (∀ b ∈ r.1, b.nextread = n) ∧ (∀ b ∈ r.1, b.firstTid = 0) ∧
      ResultOk max r.2 ∧ Covers T (out ++ r.2.entries) (n - 1) ∧ readSum bs < readSum r.1 := by
  obtain ⟨n₁, f₁, f₂, f₃, f₄, f₅, f₆, f₇, f₈⟩ := fastForward_spec h hb hempty (by omega) hok
  rw [bitmapUnion]
  generalize fastForward bs result = ff at f₁ f₂ f₃ f₄ f₅ f₆ f₇ f₈ ⊢
  dsimp only
  rw [f₁, f₂.resultOk.maxWords]
  obtain ⟨u₁, u₂, u₃, u₄, u₅⟩ :=
    unionLoop_spec f₂ (show ff.2.nwords + (max - ff.2.nwords) ≤ max by omega)
  have hprog := u₅ (by omega) f₆ f₇
  generalize unionLoop (max - ff.2.nwords) ff.1 ff.2 n₁ = r at u₁ u₂ u₃ u₄ u₅ hprog ⊢
  refine ⟨r.2.2, f₃.trans u₃, forall₂_reads_setNext u₁.reads _, ?_, ?_, ?_, u₁.resultOk,
    u₁.covers, ?_⟩
  · intro b hb'
    obtain ⟨b', hb'', rfl⟩ := List.mem_map.mp hb'
    exact u₁.le b' hb''
  · intro b hb'
    obtain ⟨b', hb'', rfl⟩ := List.mem_map.mp hb'
    rfl
  · intro b hb'
    obtain ⟨b', hb'', rfl⟩ := List.mem_map.mp hb'
    exact firstTid_of_sameFrame u₂ f₈ b' hb''
  · rw [readSum_setNext, ← f₅]
    exact hprog

end Hdb.Bitmap
