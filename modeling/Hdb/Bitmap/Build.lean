import Hdb.Bitmap.InsertSet

/-!
# Building an index

While an index is built, the tids of a key are collected in a buffer that outlives the single
insertion. Its words are written to the vector when there is no room for another header bit, when
the build has used too much memory, and at the end. The last words stay in the buffer, and the next
tid continues from there.

The build and one-by-one insertion are run side by side: the entries of the pages and of the buffer
have the bits of the other vector, and the last words of the buffer are those of its LOV item
(`BuildSim`). At the end this leaves one difference. `buf_free_mem` sets `num_cwords` to 0, and
`_bitmap_write_alltids` takes a buffer without content words for one that has been written. Tids
that came after the words had been written, and completed no word that had to be stored, are lost
(`unsaved`).
-/

namespace Hdb.Bitmap

/-! ## Model -/

/-- `BMTidBuildBuf`, as far as it concerns one LOV item. -/
structure BMTidBuildBuf where
  /-- `max_lov_block` is not before the block of the item. -/
  lovBlockSeen : Bool
  /-- The buffers of that block, if they are in the list `lov_blocks`, with the one of the item. -/
  lovBuf : Option (Option BMTIDBuffer)

structure BuildState where
  v : BmVector
  tids : BMTidBuildBuf

inductive BuildAction
  | addTid (tidnum : Nat)
  /-- The build has used too much memory. -/
  | makeSpace

/-- A new buffer for a vector. -/
def newBuildBuffer (lov : BMLOVItem) : BMTIDBuffer :=
  bufExtend { BMTIDBuffer.zero with
    lastTid := lov.bmLastSetbit
    lastCompword := lov.bmLastCompword
    lastWord := lov.bmLastWord
    isLastCompwordFill := lov.lovWordsHeader == 2 }

/-- `none` when there is an error or the buffers of the block are not in the list. -/
def bufAddTid (L : PageLayout) (st : BuildState) (tidnum : Nat) : Option BuildState :=
  (if st.tids.lovBlockSeen then st.tids.lovBuf else some none).bind fun bufs =>
    (bufAddTidWithFill L st.v (bufs.getD (newBuildBuffer st.v.lovItem)) tidnum).toOption.map
      fun (v, buf) => ⟨v, true, some (some buf)⟩

/-- Write the words of a buffer to the vector, and release their space. -/
def bufFreeMem (L : PageLayout) (v : BmVector) (buf : BMTIDBuffer) :
    Except BmError (BmVector × BMTIDBuffer) :=
  if buf.numCwords = 0 then .ok (v, buf)
  else
    match bitmapWriteNewBitmapwords L v buf with
    | .error e => .error e
    | .ok v => .ok (v, bitmapFreeTidbuf buf)

def bufMakeSpace (L : PageLayout) (st : BuildState) : Option BuildState :=
  match st.tids.lovBuf with
  | some (some buf) =>
    if buf.numCwords = 0 then some st
    else (bufFreeMem L st.v buf).toOption.map fun (v, buf) =>
      ⟨v, { st.tids with lovBuf := some (some buf) }⟩
  | _ => some st

/-- Write all tids, at the end of the build. -/
def bitmapWriteAlltids (L : PageLayout) (st : BuildState) : Option BuildState :=
  match st.tids.lovBuf with
  | some (some buf) =>
    if buf.numCwords = 0 then some { st with tids := { st.tids with lovBuf := none } }
    else (bufFreeMem L st.v buf).toOption.map fun (v, _) => ⟨v, { st.tids with lovBuf := none }⟩
  | _ => some { st with tids := { st.tids with lovBuf := none } }

def buildStep (L : PageLayout) (st : BuildState) : BuildAction → Option BuildState
  | .addTid tidnum => bufAddTid L st tidnum
  | .makeSpace => bufMakeSpace L st

/-- The state before the first tid. -/
def startBuild (v : BmVector) : BuildState := ⟨v, false, none⟩

/-- The tids of the actions. -/
def buildTids : List BuildAction → List Nat
  | [] => []
  | .addTid tidnum :: as => tidnum :: buildTids as
  | .makeSpace :: as => buildTids as

/-! ## The last words do not depend on the rest -/

section

variable {L : PageLayout} {v₁ v₂ w₁ w₂ : BmVector} {b₁ b₂ c₁ c₂ : BMTIDBuffer}

theorem mergewords_last (h : SameLast b₁ b₂) (f : Bool) :
    SameLast (mergewords b₁ f) (mergewords b₂ f) := by
  simp only [mergewords, h.compword, h.fill, h.word, h.tid]
  split_ifs
  all_goals exact ⟨rfl, rfl, rfl, rfl⟩

theorem bufEnsureHeadSpace_last (h : bufEnsureHeadSpace L v₁ b₁ = .ok (w₁, c₁)) :
    SameLast b₁ c₁ := by
  rw [bufEnsureHeadSpace] at h
  split_ifs at h
  · cases h
    exact bufExtend_last b₁
  · split at h
    · cases h
    · cases h
      exact (bitmapFreeTidbuf_last b₁).trans (bufExtend_last (bitmapFreeTidbuf b₁))
  · cases h
    exact SameLast.refl b₁

/-- The same words are merged, whether or not the buffers are written before. -/
theorem ensured_mergewords_last (h : SameLast b₁ b₂)
    (h₁ : bufEnsureHeadSpace L v₁ b₁ = .ok (w₁, c₁))
    (h₂ : bufEnsureHeadSpace L v₂ b₂ = .ok (w₂, c₂)) (f : Bool) :
    SameLast (mergewords c₁ f) (mergewords c₂ f) :=
  mergewords_last (((bufEnsureHeadSpace_last h₁).symm.trans h).trans (bufEnsureHeadSpace_last h₂)) f

theorem fillZerosLoop_last {fuel n : Nat} (h : SameLast b₁ b₂)
    (h₁ : fillZerosLoop L fuel n v₁ b₁ = .ok (w₁, c₁))
    (h₂ : fillZerosLoop L fuel n v₂ b₂ = .ok (w₂, c₂)) : SameLast c₁ c₂ := by
  induction fuel generalizing n v₁ v₂ b₁ b₂ with
  | zero =>
    cases h₁
    cases h₂
    exact h
  | succ fuel ih =>
    rw [fillZerosLoop] at h₁ h₂
    split_ifs at h₁ h₂
    · cases h₁
      cases h₂
      exact h
    all_goals
      dsimp only at h₁ h₂
      split at h₁
      · cases h₁
      split at h₂
      · cases h₂
      case _ x₁ y₁ e₁ _ x₂ y₂ e₂ =>
        refine ih (ensured_mergewords_last ?_ e₁ e₂ true) h₁ h₂
        exact ⟨h.compword, h.fill, rfl, h.tid⟩

theorem bufAddZeros_last {zeros : Nat} (h : SameLast b₁ b₂)
    (h₁ : bufAddZeros L v₁ b₁ zeros = .ok (w₁, c₁))
    (h₂ : bufAddZeros L v₂ b₂ zeros = .ok (w₂, c₂)) : SameLast c₁ c₂ := by
  simp only [bufAddZeros, h.tid] at h₁ h₂
  split_ifs at h₁ h₂
  · split at h₁
    · cases h₁
    split at h₂
    · cases h₂
    case _ x₁ y₁ e₁ _ x₂ y₂ e₂ =>
      exact fillZerosLoop_last (ensured_mergewords_last h e₁ e₂ false) h₁ h₂
  · exact fillZerosLoop_last h h₁ h₂

theorem bufSetBit_last {tidnum : Nat} (h : SameLast b₁ b₂)
    (h₁ : bufSetBit L v₁ b₁ tidnum = .ok (w₁, c₁))
    (h₂ : bufSetBit L v₂ b₂ tidnum = .ok (w₂, c₂)) : SameLast c₁ c₂ := by
  simp only [bufSetBit, h.word] at h₁ h₂
  by_cases hfull : tidnum % 64 = 0
  · rw [if_pos hfull] at h₁ h₂
    generalize (if b₁.lastWord ||| 1#64 <<< ((tidnum - 1) % 64) = literalAllZero then _ else _) = w
      at h₁ h₂
    generalize (b₁.lastWord ||| 1#64 <<< ((tidnum - 1) % 64) == literalAllZero || _) = f at h₁ h₂
    split at h₁
    · cases h₁
    case _ x₁ y₁ e₁ =>
      split at h₂
      · cases h₂
      case _ x₂ y₂ e₂ =>
        cases h₁
        cases h₂
        have hsame : SameLast { b₁ with lastWord := w } { b₂ with lastWord := w } :=
          ⟨h.compword, h.fill, rfl, h.tid⟩
        have hlast := ensured_mergewords_last hsame e₁ e₂ f
        exact ⟨hlast.compword, hlast.fill, hlast.word, rfl⟩
  · rw [if_neg hfull] at h₁ h₂
    cases h₁
    cases h₂
    exact ⟨h.compword, h.fill, rfl, rfl⟩

/-- **The last words after a tid** are a function of those before. -/
theorem bufAddTidWithFill_last {tidnum : Nat} (h : SameLast b₁ b₂)
    (h₁ : bufAddTidWithFill L v₁ b₁ tidnum = .ok (w₁, c₁))
    (h₂ : bufAddTidWithFill L v₂ b₂ tidnum = .ok (w₂, c₂)) : SameLast c₁ c₂ := by
  simp only [bufAddTidWithFill, h.tid] at h₁ h₂
  split_ifs at h₁ h₂
  · split at h₁
    · cases h₁
    split at h₂
    · cases h₂
    case _ x₁ y₁ e₁ _ x₂ y₂ e₂ => exact bufSetBit_last (bufAddZeros_last h e₁ e₂) h₁ h₂
  · exact bufSetBit_last h h₁ h₂

end

/-! ## Side by side -/

/-- A buffer of the build and the vector that got the same tids one at a time. -/
structure BufferSim (L : PageLayout) (v : BmVector) (bs : List Nat) (buf : BMTIDBuffer)
    (w : BmVector) : Prop where
  building : Building L v bs buf
  word : ∀ i, buf.lastWord.getLsbD i = true → i < buf.lastTid % 64
  bound : buf.lastTid < 2 ^ 63
  last : LastWords w.lovItem buf
  bits : ∀ p, bitAt (vectorEntries w) p = builtBit v bs buf p
  /-- The LOV item is up to date, or tids have come since it was written. -/
  saved : (LastWords v.lovItem buf ∧ buf.curword = 0) ∨ v.lovItem.bmLastSetbit < buf.lastTid

/-- The build and one-by-one insertion, before the first tid and after it. -/
inductive BuildSim (L : PageLayout) : BuildState → BmVector → Prop
  | start (v : BmVector) : BuildSim L (startBuild v) v
  | buffer {v : BmVector} {bs : List Nat} {buf : BMTIDBuffer} {w : BmVector}
      (h : BufferSim L v bs buf w) : BuildSim L ⟨v, true, some (some buf)⟩ w

section

variable {L : PageLayout} {v w : BmVector} {bs : List Nat} {buf : BMTIDBuffer}

theorem lastWords_newBuildBuffer (h : VecInv L v bs) :
    LastWords v.lovItem (newBuildBuffer v.lovItem) := by
  have hlast := bufExtend_last { BMTIDBuffer.zero with
    lastTid := v.lovItem.bmLastSetbit
    lastCompword := v.lovItem.bmLastCompword
    lastWord := v.lovItem.bmLastWord
    isLastCompwordFill := v.lovItem.lovWordsHeader == 2 }
  refine ⟨hlast.compword.symm, hlast.word.symm, ?_, hlast.tid.symm, ?_⟩
  · rw [newBuildBuffer, hlast.fill]
    rcases h.header with h0 | h2
    · rw [h0]
      rfl
    · rw [h2]
      rfl
  · rw [newBuildBuffer, hlast.tid]
    exact h.location

/-- Buffers with the last words of the same LOV item. -/
theorem LastWords.sameLast {lov : BMLOVItem} {buf' : BMTIDBuffer} (h : LastWords lov buf)
    (h' : LastWords lov buf') : SameLast buf buf' := by
  refine ⟨h'.compword.symm.trans h.compword, ?_, h'.word.symm.trans h.word,
    h'.setbit.symm.trans h.setbit⟩
  have hheader := h'.header.symm.trans h.header
  cases hf : buf.isLastCompwordFill <;> cases hf' : buf'.isLastCompwordFill
  all_goals simp [hf, hf'] at hheader ⊢

theorem lastWords_lovBuffer (h : VecInv L v bs) : LastWords v.lovItem (lovBuffer v.lovItem) := by
  refine ⟨rfl, rfl, ?_, rfl, h.location⟩
  rcases h.header with h0 | h2
  · rw [lovBuffer, h0]
    rfl
  · rw [lovBuffer, h2]
    rfl

/-- A new buffer is one whose words are all in the vector. -/
theorem bufferSim_new (h : VecInv L v bs) : BufferSim L v bs (newBuildBuffer v.lovItem) v := by
  have hwords := lastWords_newBuildBuffer h
  have hcur : (newBuildBuffer v.lovItem).curword = 0 := bufExtend_curword _
  have hlast : SameLast (lovBuffer v.lovItem) (newBuildBuffer v.lovItem) :=
    (lastWords_lovBuffer h).sameLast hwords
  have hbuf := bufCore_lovBuffer h
  have hunset : (lovBuffer v.lovItem).lastCompword ≠ literalAllOne ∨
      numBits (chainEntries v.pages bs) = 0 := by
    by_cases hu : (lovBuffer v.lovItem).lastCompword = literalAllOne
    · exact .inr (hbuf.unset hu).2
    · exact .inl hu
  have hcore : BufCore (numBits (chainEntries v.pages bs)) (newBuildBuffer v.lovItem) :=
    hbuf.emptied hunset rfl hlast hcur (bufClean_zero fun i => rfl)
  refine ⟨⟨h.chain, hcore, by omega, hwords.setbit.le⟩, ?_, ?_, hwords, fun p => ?_,
    .inl ⟨hwords, hcur⟩⟩
  · rw [← hwords.word, ← hwords.setbit]
    exact h.word
  · rw [← hwords.setbit]
    exact h.bound
  · rw [h.entries, builtBit, built, hlast.flat_emptied hcur, ← compwordEntries_of_lastWords
      (lastWords_lovBuffer h), ← hwords.word, List.append_assoc]

/-- A tid that is after the last set one is not in a run of ones. -/
theorem inOnesRun_of_lt {tidnum : Nat} (h : VecInv L v bs) (hlt : v.lovItem.bmLastSetbit < tidnum) :
    inOnesRun v.lovItem tidnum = false := by
  have hloc := h.location
  rw [inOnesRun, decide_eq_false (show ¬ tidnum ≤ v.lovItem.bmLastTidLocation by omega),
    Bool.and_false]

/-- The LOV item after a tid has been appended. -/
theorem insertsetbit_lastWords {tidnum : Nat} (h : VecInv L v bs)
    (hlt : v.lovItem.bmLastSetbit < tidnum) (htid : tidnum < 2 ^ 63)
    (hins : insertsetbit L v tidnum = .ok w) :
    ∃ v' buf', bufAddTidWithFill L v (lovBuffer v.lovItem) tidnum = .ok (v', buf') ∧
      LastWords w.lovItem buf' := by
  obtain ⟨buf', b₁, b₂, -, b₃, -⟩ := lovBuffer_addTid h hlt htid
  refine ⟨v, buf', b₁, ?_⟩
  rw [insertsetbit, if_neg (not_le.mpr hlt), b₁] at hins
  dsimp only at hins
  by_cases hnum : buf'.numCwords = 0
  · rw [if_pos hnum] at hins
    cases hins
    exact ⟨rfl, rfl, rfl, b₃.symm, by rw [b₃]⟩
  · rw [if_neg hnum] at hins
    obtain ⟨v', bs', w₁, -, -, w₄⟩ :=
      bitmapWriteNewBitmapwords_spec L h.chain b₂.cur b₂.core.lastTids
    rw [w₁] at hins
    cases hins
    exact w₄

/-- **One tid, side by side.** -/
theorem BufferSim.addTid {tidnum : Nat} {bs' : List Nat} (h : BufferSim L v bs buf w)
    (hw : VecInv L w bs') (hlt : w.lovItem.bmLastSetbit < tidnum) (htid : tidnum < 2 ^ 63) :
    ∃ v₁ bs₁ buf₁ w₁ bs₁', bufAddTidWithFill L v buf tidnum = .ok (v₁, buf₁) ∧
      insertsetbit L w tidnum = .ok w₁ ∧ BufferSim L v₁ bs₁ buf₁ w₁ ∧ VecInv L w₁ bs₁' ∧
      w₁.lovItem.bmLastSetbit = tidnum := by
  have hpos : 1 ≤ tidnum := by omega
  obtain ⟨v₁, bs₁, buf₁, e₁, e₂, e₃, e₄, e₅, e₆, -⟩ := h.building.addTid h.word
    (by rw [← h.last.setbit]; exact hlt) htid
  obtain ⟨w₁, bs₁', f₁, f₂, f₃⟩ := insertsetbit_spec hw hpos htid (inOnesRun_of_lt hw hlt)
  obtain ⟨v', buf', g₁, g₂⟩ := insertsetbit_lastWords hw hlt htid f₁
  have hlast : SameLast buf' buf₁ :=
    bufAddTidWithFill_last ((lastWords_lovBuffer hw).sameLast h.last) g₁ e₁
  have hwords : LastWords w₁.lovItem buf₁ := by
    refine ⟨g₂.compword.trans hlast.compword.symm, g₂.word.trans hlast.word.symm, ?_,
      g₂.setbit.trans hlast.tid.symm, ?_⟩
    · rw [g₂.header, hlast.fill]
    · rw [g₂.location, hlast.tid]
  refine ⟨v₁, bs₁, buf₁, w₁, bs₁', e₁, f₁, ⟨e₂, e₃, by rw [e₄]; exact htid, hwords, fun p => ?_,
    .inr (by rw [e₄]; exact e₆)⟩, f₂, by rw [hwords.setbit, e₄]⟩
  have hins := f₃ (p + 1)
  simp only [vectorHas, Nat.succ_pos, decide_true, Bool.true_and, Nat.add_sub_cancel] at hins
  rw [hins, h.bits, e₅]
  congr 1
  exact decide_eq_decide.mpr (by omega)

/-- **Writing the words of the buffer, side by side.** -/
theorem BufferSim.free (h : BufferSim L v bs buf w) (hnum : buf.numCwords ≠ 0) :
    ∃ v₁ bs₁, bufFreeMem L v buf = .ok (v₁, bitmapFreeTidbuf buf) ∧
      BufferSim L v₁ bs₁ (bitmapFreeTidbuf buf) w ∧
      LastWords v₁.lovItem (bitmapFreeTidbuf buf) := by
  obtain ⟨v₁, bs₁, w₁, w₂, w₃, w₄⟩ :=
    bitmapWriteNewBitmapwords_spec L h.building.chain h.building.cur
    h.building.core.lastTids
  have hlast := bitmapFreeTidbuf_last buf
  have hbits : numBits (chainEntries v₁.pages bs₁) =
      numBits (chainEntries v.pages bs) + numBits buf.entries := by
    rw [w₃, numBits_append]
  have hunset : buf.lastCompword ≠ literalAllOne ∨ numBits (chainEntries v₁.pages bs₁) = 0 := by
    by_cases hu : buf.lastCompword = literalAllOne
    · obtain ⟨hcur, hT⟩ := h.building.core.unset hu
      rw [hbits, hT, BMTIDBuffer.entries, hcur]
      exact .inr rfl
    · exact .inl hu
  have hcore := h.building.core.emptied hunset hbits hlast rfl (bufClean_zero fun i => rfl)
  have hlov : LastWords v₁.lovItem (bitmapFreeTidbuf buf) :=
    ⟨w₄.compword, w₄.word, w₄.header, w₄.setbit, w₄.location⟩
  refine ⟨v₁, bs₁, ?_, ⟨⟨w₂, hcore, Nat.zero_le _, w₄.setbit.le⟩, h.word, h.bound,
    ⟨h.last.compword, h.last.word, h.last.header, h.last.setbit, h.last.location⟩, fun p => ?_,
    .inl ⟨hlov, rfl⟩⟩, hlov⟩
  · rw [bufFreeMem, if_neg hnum, w₁]
  · rw [h.bits, builtBit, builtBit, built, built, hlast.flat_emptied rfl, w₃, flat, hlast.word]
    simp only [List.append_assoc]

theorem buildStep_makeSpace {st : BuildState} (h : BuildSim L st w) :
    ∃ st', buildStep L st .makeSpace = some st' ∧ BuildSim L st' w := by
  cases h with
  | start v => exact ⟨_, rfl, .start w⟩
  | @buffer v bs buf w h =>
    rw [buildStep, bufMakeSpace]
    dsimp only
    by_cases hnum : buf.numCwords = 0
    · rw [if_pos hnum]
      exact ⟨_, rfl, .buffer h⟩
    · obtain ⟨v₁, bs₁, e₁, e₂, -⟩ := h.free hnum
      rw [if_neg hnum, e₁]
      exact ⟨_, rfl, .buffer e₂⟩

theorem bufAddTid_of_ok {st : BuildState} (bufs : Option BMTIDBuffer) {tidnum : Nat}
    (hbufs : (if st.tids.lovBlockSeen then st.tids.lovBuf else some none) = some bufs)
    (h : bufAddTidWithFill L st.v (bufs.getD (newBuildBuffer st.v.lovItem)) tidnum = .ok (v, buf)) :
    bufAddTid L st tidnum = some ⟨v, true, some (some buf)⟩ := by
  rw [bufAddTid, hbufs, Option.bind_some, h]
  rfl

theorem buildStep_addTid {st : BuildState} {bs' : List Nat} {tidnum : Nat} (h : BuildSim L st w)
    (hw : VecInv L w bs') (hlt : w.lovItem.bmLastSetbit < tidnum) (htid : tidnum < 2 ^ 63) :
    ∃ st' w' bs₁, buildStep L st (.addTid tidnum) = some st' ∧ insertStep L w tidnum = some w' ∧
      BuildSim L st' w' ∧ VecInv L w' bs₁ ∧ w'.lovItem.bmLastSetbit = tidnum := by
  cases h with
  | start v =>
    obtain ⟨v₁, bs₁, buf₁, w₁, bs₁', e₁, e₂, e₃, e₄, e₅⟩ := (bufferSim_new hw).addTid hw hlt htid
    refine ⟨⟨v₁, true, some (some buf₁)⟩, w₁, bs₁', ?_, ?_, .buffer e₃, e₄, e₅⟩
    · exact bufAddTid_of_ok none rfl e₁
    · rw [insertStep, e₂]
      rfl
  | @buffer v bs buf w h =>
    obtain ⟨v₁, bs₁, buf₁, w₁, bs₁', e₁, e₂, e₃, e₄, e₅⟩ := h.addTid hw hlt htid
    refine ⟨⟨v₁, true, some (some buf₁)⟩, w₁, bs₁', ?_, ?_, .buffer e₃, e₄, e₅⟩
    · exact bufAddTid_of_ok (some buf) rfl e₁
    · rw [insertStep, e₂]
      rfl

/-- **The build and one-by-one insertion go on side by side.** -/
theorem run_build {st : BuildState} {bs' : List Nat} {as : List BuildAction} (h : BuildSim L st w)
    (hw : VecInv L w bs') (hsorted : (w.lovItem.bmLastSetbit :: buildTids as).Pairwise (· < ·))
    (htid : ∀ t ∈ buildTids as, t < 2 ^ 63) :
    ∃ st' w' bs₁, run (buildStep L) st as = some st' ∧
      run (insertStep L) w (buildTids as) = some w' ∧ BuildSim L st' w' ∧ VecInv L w' bs₁ := by
  induction as generalizing st w bs' with
  | nil => exact ⟨st, w, bs', rfl, rfl, h, hw⟩
  | cons a as ih =>
    cases a with
    | makeSpace =>
      obtain ⟨st₁, e₁, e₂⟩ := buildStep_makeSpace h
      obtain ⟨st', w', bs₁, f₁, f₂, f₃, f₄⟩ := ih e₂ hw hsorted htid
      refine ⟨st', w', bs₁, ?_, f₂, f₃, f₄⟩
      rw [run_cons, e₁]
      exact f₁
    | addTid tidnum =>
      rw [buildTids] at hsorted htid
      have hlt := List.rel_of_pairwise_cons hsorted (List.mem_cons_self ..)
      obtain ⟨st₁, w₁, bs₁, e₁, e₂, e₃, e₄, e₅⟩ := buildStep_addTid h hw hlt
        (htid tidnum (List.mem_cons_self ..))
      obtain ⟨st', w', bs₂, f₁, f₂, f₃, f₄⟩ := ih e₃ e₄ (e₅.symm ▸ hsorted.of_cons)
        fun t ht => htid t (List.mem_cons_of_mem _ ht)
      refine ⟨st', w', bs₂, ?_, ?_, f₃, f₄⟩
      · rw [run_cons, e₁]
        exact f₁
      · rw [buildTids, run_cons, e₂]
        exact f₂

end

/-! ## The end of the build -/

/-- There are tids in the buffer that are not in the vector, and no content word. -/
def unsaved (st : BuildState) : Bool :=
  match st.tids.lovBuf with
  | some (some buf) =>
    decide (buf.numCwords = 0) && decide (buf.lastTid ≠ st.v.lovItem.bmLastSetbit)
  | _ => false

theorem unsaved_buffer (v : BmVector) (buf : BMTIDBuffer) :
    unsaved ⟨v, true, some (some buf)⟩ =
      (decide (buf.numCwords = 0) && decide (buf.lastTid ≠ v.lovItem.bmLastSetbit)) := rfl

/-- The vectors have the same tids and the same last words. -/
structure SameVector (v w : BmVector) : Prop where
  tids : ∀ t, vectorHas v t = vectorHas w t
  compword : v.lovItem.bmLastCompword = w.lovItem.bmLastCompword
  word : v.lovItem.bmLastWord = w.lovItem.bmLastWord
  header : v.lovItem.lovWordsHeader = w.lovItem.lovWordsHeader
  setbit : v.lovItem.bmLastSetbit = w.lovItem.bmLastSetbit
  location : v.lovItem.bmLastTidLocation = w.lovItem.bmLastTidLocation

section

variable {L : PageLayout} {v w : BmVector} {bs : List Nat} {buf : BMTIDBuffer}

/-- The words of the buffer have been written, and its last words are those of the LOV item. -/
theorem BufferSim.sameVector (h : BufferSim L v bs buf w) (hlov : LastWords v.lovItem buf)
    (hcur : buf.curword = 0) : SameVector v w := by
  have hentries : vectorEntries v = built v bs buf ++ [(buf.lastWord, false)] := by
    rw [vectorEntries, h.building.chain.pagesEntries, compwordEntries_of_lastWords hlov, hlov.word,
      built, (SameLast.refl buf).flat_emptied hcur, List.append_assoc]
  refine ⟨fun t => ?_, hlov.compword.trans h.last.compword.symm, hlov.word.trans h.last.word.symm,
    hlov.header.trans h.last.header.symm, hlov.setbit.trans h.last.setbit.symm,
    hlov.location.trans h.last.location.symm⟩
  rw [vectorHas, vectorHas, h.bits, hentries]
  rfl

theorem bitmapWriteAlltids_sim {st : BuildState} (h : BuildSim L st w) :
    ∃ st', bitmapWriteAlltids L st = some st' ∧ (SameVector st'.v w ↔ unsaved st = false) := by
  cases h with
  | start v => exact ⟨_, rfl, fun _ => rfl, fun _ => ⟨fun _ => rfl, rfl, rfl, rfl, rfl, rfl⟩⟩
  | @buffer v bs buf w h =>
    rw [bitmapWriteAlltids]
    dsimp only
    by_cases hnum : buf.numCwords = 0
    · rw [if_pos hnum]
      refine ⟨_, rfl, ?_⟩
      rw [unsaved_buffer, decide_eq_true hnum, Bool.true_and, decide_eq_false_iff_not, not_not]
      constructor
      · intro hsame
        rw [← h.last.setbit]
        exact hsame.setbit.symm
      · intro heq
        obtain ⟨hlov, hcur⟩ := h.saved.resolve_right fun hlt => by omega
        exact h.sameVector hlov hcur
    · obtain ⟨v₁, bs₁, e₁, e₂, e₃⟩ := h.free hnum
      rw [if_neg hnum, e₁]
      refine ⟨_, rfl, fun _ => ?_, fun _ => e₂.sameVector e₃ rfl⟩
      rw [unsaved_buffer, decide_eq_false hnum, Bool.false_and]

end

/-- The tids of the build come after the bits of a new vector. -/
theorem newVector_bmLastSetbit_lt {currTidNumber nblocks : Nat} {pages : Nat → BMBitmapPage}
    {tids : List Nat} (hpos : ∀ t ∈ tids, 1 ≤ t ∧ currTidNumber ≤ t ∧ t < 2 ^ 63) :
    ∀ t ∈ tids, (newVector currTidNumber pages nblocks).lovItem.bmLastSetbit < t := by
  intro t ht
  obtain ⟨h₁, h₂, h₃⟩ := hpos t ht
  have hmax : maxFillLength = 2 ^ 63 - 1 := rfl
  rw [newVector, bitmapFormitem]
  split_ifs with hsmall
  · exact h₁
  · dsimp only
    rw [if_neg (by omega)]
    omega

/-- **Building is inserting one by one**, unless tids are left in a buffer without content words at
the end. -/
theorem build_iff_insert (L : PageLayout) (currTidNumber : Nat) (pages : Nat → BMBitmapPage)
    (nblocks : Nat) (as : List BuildAction) (hsorted : (buildTids as).Pairwise (· < ·))
    (hpos : ∀ t ∈ buildTids as, 1 ≤ t ∧ currTidNumber ≤ t ∧ t < 2 ^ 63)
    (hcurr : currTidNumber < 2 ^ 63) :
    ∃ st st' w, run (buildStep L) (startBuild (newVector currTidNumber pages nblocks)) as =
      some st ∧ bitmapWriteAlltids L st = some st' ∧
      run (insertStep L) (newVector currTidNumber pages nblocks) (buildTids as) = some w ∧
      (SameVector st'.v w ↔ unsaved st = false) := by
  have hnew := vecInv_new L hcurr pages nblocks
  obtain ⟨st, w, bs, e₁, e₂, e₃, -⟩ := run_build (.start _) hnew
    (List.pairwise_cons.mpr ⟨newVector_bmLastSetbit_lt hpos, hsorted⟩) fun t ht => (hpos t ht).2.2
  obtain ⟨st', f₁, f₂⟩ := bitmapWriteAlltids_sim e₃
  exact ⟨st, st', w, e₁, f₁, e₂, f₂⟩

/-- Words are written in the middle, and a word is completed after that. -/
theorem build_iff_insert_spilled :
    let as := [.addTid 1, .addTid 70, .makeSpace, .addTid 71, .addTid 200]
    let v := newVector 1 (fun _ => bitmapInitBitmappage) 0
    ∃ st st' w, run (buildStep ⟨1, by decide⟩) (startBuild v) as = some st ∧
      bitmapWriteAlltids ⟨1, by decide⟩ st = some st' ∧
      run (insertStep ⟨1, by decide⟩) v (buildTids as) = some w ∧ SameVector st'.v w := by
  intro as v
  obtain ⟨st, st', w, h₁, h₂, h₃, h₄⟩ := build_iff_insert ⟨1, by decide⟩ 1
    (fun _ => bitmapInitBitmappage) 0 as (by decide) (by decide) (by decide)
  refine ⟨st, st', w, h₁, h₂, h₃, h₄.mpr ?_⟩
  have hsaved : (run (buildStep ⟨1, by decide⟩) (startBuild v) as).map unsaved = some false := by
    decide +kernel
  rw [h₁, Option.map_some] at hsaved
  exact Option.some.inj hsaved

/-- **A tid is lost.** The words of the tid 1 are written, then the tid 2 comes. It completes no
word, and at the end of the build the buffer is passed over. -/
theorem build_loses_tid :
    let as := [.addTid 1, .makeSpace, .addTid 2]
    let v := newVector 1 (fun _ => bitmapInitBitmappage) 0
    ∃ st st' w, run (buildStep ⟨1, by decide⟩) (startBuild v) as = some st ∧
      bitmapWriteAlltids ⟨1, by decide⟩ st = some st' ∧
      run (insertStep ⟨1, by decide⟩) v (buildTids as) = some w ∧ vectorHas w 2 = true ∧
      vectorHas st'.v 2 = false ∧ ¬ SameVector st'.v w := by
  intro as v
  obtain ⟨st, hst⟩ := Option.isSome_iff_exists.mp
    (show (run (buildStep ⟨1, by decide⟩) (startBuild v) as).isSome from by decide +kernel)
  obtain ⟨w, hw⟩ := Option.isSome_iff_exists.mp
    (show (run (insertStep ⟨1, by decide⟩) v (buildTids as)).isSome from by decide +kernel)
  have hlost : (run (buildStep ⟨1, by decide⟩) (startBuild v) as).map (fun st =>
      (bitmapWriteAlltids ⟨1, by decide⟩ st).map fun st' => vectorHas st'.v 2) =
      some (some false) := by
    decide +kernel
  have hkept : (run (insertStep ⟨1, by decide⟩) v (buildTids as)).map (fun w => vectorHas w 2) =
      some true := by
    decide +kernel
  rw [hst, Option.map_some, Option.some.injEq] at hlost
  rw [hw, Option.map_some, Option.some.injEq] at hkept
  obtain ⟨st', hst', hlost⟩ := Option.map_eq_some_iff.mp hlost
  refine ⟨st, st', w, hst, hst', hw, hkept, hlost, fun hsame => ?_⟩
  rw [hsame.tids 2, hkept] at hlost
  cases hlost

end Hdb.Bitmap
