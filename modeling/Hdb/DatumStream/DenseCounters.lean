import Hdb.DatumStream.DenseWriter
import Hdb.Lib.Run

/-!
# The counters of a dense block

Every row of a block is a NULL, a repeat, a delta or a physical item. `DenseInvariant` says how the
counters go together; it holds after every put from the start of a block on, whether the datum was
taken or not (`put_invariant`), and from it the equations of
`DatumStreamBlockWrite_CheckDenseInvariant` follow.
-/

namespace Hdb.DatumStream

open DatumStreamBitMapWrite (Started)

namespace DatumStreamBlockWrite

/-- The items in the block, in place or as deltas, without repeats. -/
def totalDatumCount (dsw : DatumStreamBlockWrite) : ℕ :=
  dsw.physicalDatumCount + dsw.deltaBitmap.bitOnCount

structure DenseInvariant (dsw : DatumStreamBlockWrite) : Prop where
  null : dsw.nullBitmap.Started dsw.hasNull dsw.alwaysNullBitmapCount
  compress : dsw.rleCompressBitmap.Started dsw.rleHasCompression dsw.totalDatumCount
  delta : dsw.deltaBitmap.Started dsw.deltaHasCompression dsw.totalDatumCount
  always : dsw.alwaysNullBitmapCount = dsw.nullBitmap.bitOnCount + dsw.totalDatumCount
  nth : dsw.nth + dsw.rleCompressBitmap.bitOnCount =
    dsw.alwaysNullBitmapCount + dsw.rleTotalRepeatItemsWritten
  noRepeats : dsw.rleHasCompression = false →
    dsw.rleTotalRepeatItemsWritten = 0 ∧ dsw.rleLastItemIsRepeated = false
  wantRle : dsw.rleHasCompression → dsw.rleWantCompression
  wantDelta : dsw.deltaHasCompression → dsw.deltaWantCompression
  fixed : dsw.deltaHasCompression → 0 ≤ dsw.typeInfo.datumlen
  item : dsw.rleWantCompression → dsw.rleLastItem.isSome → 0 < dsw.totalDatumCount
  max : dsw.nth ≤ dsw.maxDatumPerBlock

variable {dsw : DatumStreamBlockWrite}

/-! ## What the parts of a put change -/

theorem makeNullBitMapSpace_spec
    (h : dsw.nullBitmap.Started dsw.hasNull dsw.alwaysNullBitmapCount) :
    ∃ b, dsw.makeNullBitMapSpace = { dsw with hasNull := true, nullBitmap := b } ∧
      b.Started true dsw.alwaysNullBitmapCount ∧ b.bitOnCount = dsw.nullBitmap.bitOnCount := by
  cases hnull : dsw.hasNull with
  | false =>
    rw [hnull] at h
    refine ⟨_, by simp only [makeNullBitMapSpace, hnull]; rfl, .of_true ?_, by simp⟩
    rw [DatumStreamBitMapWrite.zeroFill_bitCount _ (h.grow _ _).fresh, Int.toNat_natCast]
  | true =>
    rw [hnull] at h
    exact ⟨_, by simp only [makeNullBitMapSpace, hnull]; rfl, h.grow _ _, by simp⟩

/-- The compress bit-map, with the bits of all items but the last when it is started. -/
theorem makeCompressBitMapSpace_spec {n : ℕ} (htotal : dsw.totalDatumCount = n)
    (h : dsw.rleCompressBitmap.Started dsw.rleHasCompression n)
    (hdelta : dsw.deltaBitmap.Started dsw.deltaHasCompression n) :
    ∃ b, dsw.makeCompressBitMapSpace = { dsw with rleCompressBitmap := b } ∧
      b.bitCount = (if dsw.rleHasCompression then n else n - 1) ∧
      b.bitOnCount = dsw.rleCompressBitmap.bitOnCount := by
  have hon : (if dsw.deltaHasCompression then dsw.deltaBitmap.bitOnCount else 0) =
      dsw.deltaBitmap.bitOnCount := by
    cases hhas : dsw.deltaHasCompression with
    | false => exact (hdelta.bitOnCount hhas).symm
    | true => rfl
  cases hrle : dsw.rleHasCompression with
  | false =>
    rw [hrle] at h
    refine ⟨_, by simp only [makeCompressBitMapSpace, hrle]; rfl, ?_, by simp⟩
    rw [DatumStreamBitMapWrite.zeroFill_bitCount _ (h.grow _ _).fresh, hon, ← htotal,
      totalDatumCount]
    simp only [Bool.false_eq_true, if_false]
    omega
  | true =>
    rw [hrle] at h
    exact ⟨_, by simp only [makeCompressBitMapSpace, hrle]; rfl, (h.grow _ _).bitCount, by simp⟩

theorem makeDeltaCompressBitMapSpace_spec {n : ℕ}
    (h : dsw.deltaBitmap.Started dsw.deltaHasCompression n) :
    ∃ b, dsw.makeDeltaCompressBitMapSpace = { dsw with deltaBitmap := b } ∧
      b.bitCount = (if dsw.deltaHasCompression then n else dsw.physicalDatumCount) ∧
      b.bitOnCount = dsw.deltaBitmap.bitOnCount := by
  cases hhas : dsw.deltaHasCompression with
  | false =>
    rw [hhas] at h
    refine ⟨_, by simp only [makeDeltaCompressBitMapSpace, hhas]; rfl, ?_, by simp⟩
    exact DatumStreamBitMapWrite.zeroFill_bitCount _ (h.grow _ _).fresh _
  | true =>
    rw [hhas] at h
    exact ⟨_, by simp only [makeDeltaCompressBitMapSpace, hhas]; rfl,
      (h.grow _ _).bitCount, by simp⟩

theorem addNotNull_spec (h : dsw.nullBitmap.Started dsw.hasNull dsw.alwaysNullBitmapCount) :
    ∃ b, dsw.addNotNull =
        { dsw with nullBitmap := b, alwaysNullBitmapCount := dsw.alwaysNullBitmapCount + 1 } ∧
      b.Started dsw.hasNull (dsw.alwaysNullBitmapCount + 1) ∧
      b.bitOnCount = dsw.nullBitmap.bitOnCount := by
  by_cases hnull : dsw.hasNull
  · obtain ⟨b, hmake, hb, hon⟩ := makeNullBitMapSpace_spec h
    refine ⟨b.addBit false, by simp [addNotNull, hnull, hmake], ?_, ?_⟩
    · rw [hnull]
      exact hb.addBit false
    · rw [DatumStreamBitMapWrite.addBit_bitOnCount, hon]
      rfl
  · refine ⟨dsw.nullBitmap, by rw [addNotNull, if_neg hnull], ?_, rfl⟩
    exact h.of_false (Bool.eq_false_iff.mpr hnull) _

theorem addNotRepeated_spec {n : ℕ} (htotal : dsw.totalDatumCount = n)
    (h : dsw.rleCompressBitmap.Started dsw.rleHasCompression n)
    (hdelta : dsw.deltaBitmap.Started dsw.deltaHasCompression n) :
    ∃ b, dsw.addNotRepeated = { dsw with rleCompressBitmap := b } ∧
      b.Started dsw.rleHasCompression (n + 1) ∧
      b.bitOnCount = dsw.rleCompressBitmap.bitOnCount := by
  by_cases hrle : dsw.rleHasCompression
  · obtain ⟨b, hmake, hb, hon⟩ := makeCompressBitMapSpace_spec htotal h hdelta
    rw [if_pos hrle] at hb
    refine ⟨b.addBit false, by rw [addNotRepeated, if_pos hrle, hmake], ?_, ?_⟩
    · rw [hrle]
      exact (Started.of_true hb).addBit false
    · rw [DatumStreamBitMapWrite.addBit_bitOnCount, hon]
      rfl
  · exact ⟨dsw.rleCompressBitmap, if_neg hrle, h.of_false (Bool.eq_false_iff.mpr hrle) _, rfl⟩

/-- No more repeats of the last item. -/
theorem finalizeRepeated_spec (dsw : DatumStreamBlockWrite) :
    ∃ item size currentSize, dsw.finalizeRepeated =
      { dsw with
        rleLastItemIsRepeated := false
        rleLastItem := item
        rleLastItemSize := size
        rleRepeatcountsCurrentSize := currentSize } ∧
      (item.isSome → dsw.rleLastItem.isSome) := by
  rw [finalizeRepeated]
  split_ifs with hrepeated
  · exact ⟨_, _, _, rfl, fun h => Bool.noConfusion h⟩
  · rw [Bool.not_eq_true] at hrepeated
    refine ⟨dsw.rleLastItem, dsw.rleLastItemSize, dsw.rleRepeatcountsCurrentSize, ?_, id⟩
    rw [← hrepeated]

theorem denseIncrNull_spec (dsw : DatumStreamBlockWrite) :
    ∃ item size repeated currentSize, dsw.denseIncrNull =
      { dsw with
        nullBitmap := dsw.nullBitmap.addBit true
        alwaysNullBitmapCount := dsw.alwaysNullBitmapCount + 1
        nth := dsw.nth + 1
        rleLastItemIsRepeated := repeated
        rleLastItem := item
        rleLastItemSize := size
        rleRepeatcountsCurrentSize := currentSize } ∧
      (item.isSome → dsw.rleLastItem.isSome) ∧
      (repeated = true → dsw.rleLastItemIsRepeated = true) := by
  simp only [denseIncrNull, finalizeRepeated, rleFinalizeRepeatCountSize]
  split_ifs with hwant hrepeated
  · exact ⟨_, _, _, _, rfl, fun h => Bool.noConfusion h, fun h => Bool.noConfusion h⟩
  · exact ⟨_, _, _, _, rfl, fun h => Bool.noConfusion h, id⟩
  · exact ⟨_, _, _, _, rfl, id, id⟩

/-- The item gets its bits, and the delta bit-map is as before. -/
theorem denseIncrItem_spec (h : DenseInvariant dsw) (rleLastItem : LastItem) (rleLastItemSize : ℕ) :
    ∃ nullBitmap compressBitmap item size repeated currentSize,
      dsw.denseIncrItem rleLastItem rleLastItemSize =
        { dsw with
          nullBitmap := nullBitmap
          alwaysNullBitmapCount := dsw.alwaysNullBitmapCount + 1
          nth := dsw.nth + 1
          physicalDatumCount := dsw.physicalDatumCount + 1
          rleCompressBitmap := compressBitmap
          rleLastItemIsRepeated := repeated
          rleLastItem := item
          rleLastItemSize := size
          rleRepeatcountsCurrentSize := currentSize } ∧
      nullBitmap.Started dsw.hasNull (dsw.alwaysNullBitmapCount + 1) ∧
      nullBitmap.bitOnCount = dsw.nullBitmap.bitOnCount ∧
      compressBitmap.Started dsw.rleHasCompression (dsw.totalDatumCount + 1) ∧
      compressBitmap.bitOnCount = dsw.rleCompressBitmap.bitOnCount ∧
      (repeated = true → dsw.rleLastItemIsRepeated = true) := by
  obtain ⟨nb, hnull, hnb, hnbOn⟩ := addNotNull_spec h.null
  rw [denseIncrItem, hnull]
  dsimp only
  split_ifs with hwant
  · obtain ⟨item, size, currentSize, hfin, -⟩ := finalizeRepeated_spec
      { dsw with nullBitmap := nb, alwaysNullBitmapCount := dsw.alwaysNullBitmapCount + 1 }
    rw [hfin]
    obtain ⟨cb, hcompress, hcb, hcbOn⟩ := @addNotRepeated_spec
      { dsw with
        nullBitmap := nb
        alwaysNullBitmapCount := dsw.alwaysNullBitmapCount + 1
        rleLastItemIsRepeated := false
        rleLastItem := some rleLastItem
        rleLastItemSize := rleLastItemSize
        rleRepeatcountsCurrentSize := currentSize } _ rfl h.compress h.delta
    rw [hcompress]
    exact ⟨nb, cb, _, _, _, _, rfl, hnb, hnbOn, hcb, hcbOn, fun h => Bool.noConfusion h⟩
  · have hrle : dsw.rleHasCompression = false := Bool.eq_false_iff.mpr (mt h.wantRle hwant)
    have hcb := h.compress.of_false hrle (dsw.totalDatumCount + 1)
    exact ⟨nb, dsw.rleCompressBitmap, _, _, _, _, rfl, hnb, hnbOn, hcb, rfl, id⟩

theorem denseIncrItem_delta (h : DenseInvariant dsw) (item : LastItem) (size : ℕ) :
    { dsw.denseIncrItem item size with
      deltaBitmap := dsw.deltaBitmap
      compareItem := dsw.compareItem } = dsw.denseIncrItem item size := by
  obtain ⟨nb, cb, item', size', repeated, currentSize, hincr, -⟩ := denseIncrItem_spec h item size
  rw [hincr]

theorem deltaAdd_spec (h : DenseInvariant dsw) (delta : ℤ) (sign : Bool) :
    ∃ nullBitmap compressBitmap deltaBitmap size currentSize deltas deltasCurrentSize,
      dsw.deltaAdd delta sign =
        { dsw with
          nullBitmap := nullBitmap
          alwaysNullBitmapCount := dsw.alwaysNullBitmapCount + 1
          nth := dsw.nth + 1
          rleCompressBitmap := compressBitmap
          rleLastItemIsRepeated := false
          rleLastItem := some .compareItem
          rleLastItemSize := size
          rleRepeatcountsCurrentSize := currentSize
          deltaHasCompression := true
          deltaBitmap := deltaBitmap
          deltas := deltas
          deltasCurrentSize := deltasCurrentSize } ∧
      nullBitmap.Started dsw.hasNull (dsw.alwaysNullBitmapCount + 1) ∧
      nullBitmap.bitOnCount = dsw.nullBitmap.bitOnCount ∧
      compressBitmap.Started dsw.rleHasCompression (dsw.totalDatumCount + 1) ∧
      compressBitmap.bitOnCount = dsw.rleCompressBitmap.bitOnCount ∧
      deltaBitmap.Started true (dsw.totalDatumCount + 1) ∧
      deltaBitmap.bitOnCount = dsw.deltaBitmap.bitOnCount + 1 := by
  obtain ⟨db, hdelta, hdbCount, hdbOn⟩ := makeDeltaCompressBitMapSpace_spec h.delta
  have hdb : db.Started true dsw.totalDatumCount := by
    refine .of_true (hdbCount.trans ?_)
    split_ifs with hhas
    · rfl
    · rw [totalDatumCount, h.delta.bitOnCount (Bool.eq_false_iff.mpr hhas), Nat.add_zero]
  obtain ⟨nb, hnull, hnb, hnbOn⟩ := @addNotNull_spec
    { dsw with deltaBitmap := db, deltaHasCompression := true } h.null
  rw [deltaAdd, hdelta]
  dsimp only
  rw [hnull]
  obtain ⟨item, size, currentSize, hfin, -⟩ := finalizeRepeated_spec
    { dsw with
      deltaBitmap := db
      deltaHasCompression := true
      nullBitmap := nb
      alwaysNullBitmapCount := dsw.alwaysNullBitmapCount + 1 }
  rw [hfin]
  have htotal : dsw.physicalDatumCount + db.bitOnCount = dsw.totalDatumCount := by
    rw [hdbOn, totalDatumCount]
  obtain ⟨cb, hcompress, hcb, hcbOn⟩ := @addNotRepeated_spec
    { dsw with
      deltaBitmap := db
      deltaHasCompression := true
      nullBitmap := nb
      alwaysNullBitmapCount := dsw.alwaysNullBitmapCount + 1
      rleLastItemIsRepeated := false
      rleLastItem := some .compareItem
      rleLastItemSize := dsw.typeInfo.datumlen.toNat
      rleRepeatcountsCurrentSize := currentSize } _ htotal h.compress hdb
  dsimp only
  rw [hcompress]
  refine ⟨nb, cb, db.addBit true, _, _, _, _, rfl, hnb, hnbOn, hcb, hcbOn, hdb.addBit true, ?_⟩
  rw [DatumStreamBitMapWrite.addBit_bitOnCount, hdbOn]
  rfl

theorem setCompareItem_spec {d : UInt64} {dsw' : DatumStreamBlockWrite}
    (h : dsw.setCompareItem d = some dsw') : ∃ compareItem, dsw' = { dsw with compareItem } := by
  rw [setCompareItem] at h
  split_ifs at h
  · exact ⟨_, (Option.some.inj h).symm⟩
  · exact ⟨_, (Option.some.inj h).symm⟩

theorem deltaMaintain_spec {n : ℕ} {d : UInt64} {dsw' : DatumStreamBlockWrite}
    (h : dsw.deltaMaintain d = .ok dsw')
    (hbits : dsw.deltaBitmap.Started dsw.deltaHasCompression n)
    (hwant : dsw.deltaHasCompression → dsw.deltaWantCompression) :
    ∃ b compareItem, dsw' = { dsw with deltaBitmap := b, compareItem } ∧
      b.Started dsw.deltaHasCompression (n + 1) ∧ b.bitOnCount = dsw.deltaBitmap.bitOnCount := by
  rw [deltaMaintain] at h
  by_cases hwants : dsw.deltaWantCompression
  · rw [if_neg (not_not.mpr hwants)] at h
    cases hset : dsw.setCompareItem d with
    | none =>
      rw [hset] at h
      cases h
    | some dsw₁ =>
      obtain ⟨compareItem, rfl⟩ := setCompareItem_spec hset
      rw [hset] at h
      dsimp only at h
      split_ifs at h with hhas
      · obtain ⟨b, hmake, hb, hon⟩ :=
          @makeDeltaCompressBitMapSpace_spec { dsw with compareItem } n hbits
        rw [hmake] at h
        refine ⟨b.addBit false, compareItem, (Except.ok.inj h).symm, ?_, ?_⟩
        · rw [hhas]
          exact (Started.of_true (hb.trans (if_pos hhas))).addBit false
        · rw [DatumStreamBitMapWrite.addBit_bitOnCount, hon]
          rfl
      · have hstart := hbits.of_false (Bool.eq_false_iff.mpr hhas) (n + 1)
        exact ⟨_, compareItem, (Except.ok.inj h).symm, hstart, rfl⟩
  · rw [if_pos hwants] at h
    have hhas : dsw.deltaHasCompression = false := Bool.eq_false_iff.mpr (mt hwant hwants)
    exact ⟨_, _, (Except.ok.inj h).symm, hbits.of_false hhas _, rfl⟩

/-- The first repeat of an item. -/
theorem rleIncrRepeated_spec (h : DenseInvariant dsw) (hwant : dsw.rleWantCompression)
    (hitem : dsw.rleLastItem.isSome) (hrepeated : dsw.rleLastItemIsRepeated = false) :
    ∃ b, dsw.rleIncrRepeated =
      { dsw with
        nth := dsw.nth + 1
        rleLastItemIsRepeated := true
        rleTotalRepeatItemsWritten := dsw.rleTotalRepeatItemsWritten + 1 + 1
        rleCompressBitmap := b
        rleHasCompression := true
        rleRepeatcounts := dsw.rleRepeatcounts ++ [1] } ∧
      b.Started true dsw.totalDatumCount ∧ b.bitOnCount = dsw.rleCompressBitmap.bitOnCount + 1 := by
  rw [rleIncrRepeated, if_pos (Bool.eq_false_iff.mp hrepeated)]
  dsimp only
  by_cases hrle : dsw.rleHasCompression
  · have hcompress := h.compress
    rw [hrle] at hcompress
    rw [if_neg (not_not.mpr hrle)]
    exact ⟨dsw.rleCompressBitmap.set, by simp only [hrle], hcompress.set, rfl⟩
  · obtain ⟨b, hmake, hb, hon⟩ := @makeCompressBitMapSpace_spec
      { dsw with
        rleLastItemIsRepeated := true
        rleTotalRepeatItemsWritten := dsw.rleTotalRepeatItemsWritten + 1 } _ rfl h.compress h.delta
    rw [if_pos hrle, hmake]
    refine ⟨b.addBit true, rfl, .of_true ?_, ?_⟩
    · rw [DatumStreamBitMapWrite.addBit_bitCount, hb, if_neg hrle]
      exact Nat.sub_add_cancel (h.item hwant hitem)
    · rw [DatumStreamBitMapWrite.addBit_bitOnCount, hon]
      rfl

/-! ## The rows keep the invariant -/

/-- Every check for space is first one for a row. -/
theorem lt_max_of_ite {b : Bool}
    (h : (if dsw.nth + 1 ≥ dsw.maxDatumPerBlock then false else b) = true) :
    dsw.nth + 1 < dsw.maxDatumPerBlock := by
  by_contra hfull
  rw [if_pos (not_lt.mp hfull)] at h
  cases h

theorem null_invariant (h : DenseInvariant dsw) (hspace : dsw.denseHasSpaceNull) :
    DenseInvariant dsw.makeNullBitMapSpace.denseIncrNull := by
  obtain ⟨b, hmake, hb, hon⟩ := makeNullBitMapSpace_spec h.null
  obtain ⟨item, size, repeated, currentSize, hincr, hitem, hrepeated⟩ :=
    denseIncrNull_spec { dsw with hasNull := true, nullBitmap := b }
  have halways := h.always
  have hnth := h.nth
  rw [hmake, hincr]
  exact
    { h with
      null := hb.addBit true
      always := by
        rw [DatumStreamBitMapWrite.addBit_bitOnCount, hon]
        change dsw.alwaysNullBitmapCount + 1 = dsw.nullBitmap.bitOnCount + 1 + dsw.totalDatumCount
        omega
      nth := by
        dsimp only
        omega
      noRepeats := fun hrle =>
        ⟨(h.noRepeats hrle).1, Bool.eq_false_iff.mpr fun hr =>
          Bool.eq_false_iff.mp (h.noRepeats hrle).2 (hrepeated hr)⟩
      item := fun hwant hsome => h.item hwant (hitem hsome)
      max := (lt_max_of_ite hspace).le }

/-- Bytes in the buffer, the item to compare with and the first datum do not count. -/
theorem DenseInvariant.frame (h : DenseInvariant dsw) (datumBuffer : List UInt8)
    (compareItem : UInt64) (notFirstDatum : Bool) :
    DenseInvariant { dsw with datumBuffer, compareItem, notFirstDatum } :=
  { h with }

theorem finalizeRepeated_invariant (h : DenseInvariant dsw) :
    DenseInvariant dsw.finalizeRepeated := by
  obtain ⟨item, size, currentSize, hfin, hitem⟩ := finalizeRepeated_spec dsw
  rw [hfin]
  exact
    { h with
      noRepeats := fun hrle => ⟨(h.noRepeats hrle).1, rfl⟩
      item := fun hwant hsome => h.item hwant (hitem hsome) }

theorem delta_invariant (h : DenseInvariant dsw) (hwant : dsw.deltaWantCompression)
    (hfixed : 0 ≤ dsw.typeInfo.datumlen) (hmax : dsw.nth + 1 < dsw.maxDatumPerBlock) (delta : ℤ)
    (sign : Bool) :
    DenseInvariant (dsw.deltaAdd delta sign) := by
  obtain ⟨nb, cb, db, size, currentSize, deltas, deltasCurrentSize, hadd, hnb, hnbOn, hcb,
    hcbOn, hdb, hdbOn⟩ := deltaAdd_spec h delta sign
  have htotal : dsw.physicalDatumCount + db.bitOnCount = dsw.totalDatumCount + 1 := by
    rw [hdbOn, totalDatumCount, Nat.add_assoc]
  rw [← htotal] at hcb hdb
  have halways := h.always
  have hnth := h.nth
  rw [hadd]
  exact
    { h with
      null := hnb
      compress := hcb
      delta := hdb
      always := by
        rw [hnbOn, totalDatumCount, htotal]
        dsimp only
        omega
      nth := by
        rw [hcbOn]
        dsimp only
        omega
      noRepeats := fun hrle => ⟨(h.noRepeats hrle).1, rfl⟩
      wantDelta := fun _ => hwant
      fixed := fun _ => hfixed
      item := fun _ _ => by
        rw [totalDatumCount, htotal]
        omega
      max := hmax.le }

/-- An item, with what is done to the delta bit-map for it. -/
theorem item_invariant (h : DenseInvariant dsw) (hmax : dsw.nth + 1 < dsw.maxDatumPerBlock)
    (item : LastItem) (size : ℕ) {deltaBitmap : DatumStreamBitMapWrite} (compareItem : UInt64)
    (hdb : deltaBitmap.Started dsw.deltaHasCompression (dsw.totalDatumCount + 1))
    (hdbOn : deltaBitmap.bitOnCount = dsw.deltaBitmap.bitOnCount) :
    DenseInvariant { dsw.denseIncrItem item size with deltaBitmap, compareItem } := by
  obtain ⟨nb, cb, item', size', repeated, currentSize, hincr, hnb, hnbOn, hcb, hcbOn, hrepeated⟩ :=
    denseIncrItem_spec h item size
  have htotal : dsw.physicalDatumCount + 1 + deltaBitmap.bitOnCount = dsw.totalDatumCount + 1 := by
    rw [hdbOn, totalDatumCount, Nat.add_right_comm]
  rw [← htotal] at hcb hdb
  have halways := h.always
  have hnth := h.nth
  rw [hincr]
  exact
    { h with
      null := hnb
      compress := hcb
      delta := hdb
      always := by
        rw [hnbOn, totalDatumCount, htotal]
        dsimp only
        omega
      nth := by
        rw [hcbOn]
        dsimp only
        omega
      noRepeats := fun hrle =>
        ⟨(h.noRepeats hrle).1, Bool.eq_false_iff.mpr fun hr =>
          Bool.eq_false_iff.mp (h.noRepeats hrle).2 (hrepeated hr)⟩
      item := fun _ _ => by
        rw [totalDatumCount, htotal]
        omega
      max := hmax.le }

theorem item_maintain_invariant (h : DenseInvariant dsw) (hmax : dsw.nth + 1 < dsw.maxDatumPerBlock)
    {item : LastItem} {size : ℕ} {d : UInt64} {dsw' : DatumStreamBlockWrite}
    (hput : (dsw.denseIncrItem item size).deltaMaintain d = .ok dsw') : DenseInvariant dsw' := by
  obtain ⟨nb, cb, item', size', repeated, currentSize, hincr, -⟩ := denseIncrItem_spec h item size
  rw [hincr] at hput
  obtain ⟨db, compareItem, rfl, hdb, hdbOn⟩ := deltaMaintain_spec hput h.delta h.wantDelta
  have hitem := item_invariant h hmax item size compareItem hdb hdbOn
  rw [hincr] at hitem
  exact hitem

theorem repeat_invariant (h : DenseInvariant dsw) (hwant : dsw.rleWantCompression)
    (hitem : dsw.rleLastItem.isSome) (hmax : dsw.nth + 1 < dsw.maxDatumPerBlock) :
    DenseInvariant dsw.rleIncrRepeated := by
  have halways := h.always
  have hnth := h.nth
  cases hrepeated : dsw.rleLastItemIsRepeated with
  | false =>
    obtain ⟨b, hincr, hb, hon⟩ := rleIncrRepeated_spec h hwant hitem hrepeated
    rw [hincr]
    exact
      { h with
        compress := hb
        nth := by
          rw [hon]
          dsimp only
          omega
        noRepeats := fun hfalse => Bool.noConfusion hfalse
        wantRle := fun _ => hwant
        max := hmax.le }
  | true =>
    have hrle : dsw.rleHasCompression ≠ false := fun hrle =>
      Bool.eq_false_iff.mp (h.noRepeats hrle).2 hrepeated
    rw [rleIncrRepeated, if_neg (not_not.mpr hrepeated)]
    exact
      { h with
        nth := by
          dsimp only
          omega
        noRepeats := fun hfalse => (hrle hfalse).elim
        max := hmax.le }

/-! ## A put keeps the invariant -/

theorem rleMarkRepeat_invariant (h : DenseInvariant dsw) (hwant : dsw.rleWantCompression)
    (hitem : dsw.rleLastItem.isSome) : DenseInvariant dsw.rleMarkRepeat.2 := by
  rw [rleMarkRepeat]
  split_ifs with hspace
  · exact repeat_invariant h hwant hitem (lt_max_of_ite hspace)
  · exact h

theorem storeVariableLength_invariant (h : DenseInvariant dsw) (hneg : dsw.typeInfo.datumlen < 0)
    (d : Datum) : DenseInvariant (dsw.storeVariableLength d).2 := by
  have haligned : DenseInvariant
      (if (storedHeader dsw.typeInfo d).length = 4 then dsw.attAlignZero else dsw) := by
    split_ifs
    · exact h.frame _ _ _
    · exact h
  have hlen : (if (storedHeader dsw.typeInfo d).length = 4 then dsw.attAlignZero
    else dsw).typeInfo =
      dsw.typeInfo := by
    split_ifs <;> rfl
  rw [storeVariableLength]
  dsimp only
  generalize
    (if (storedHeader dsw.typeInfo d).length = 4 then dsw.attAlignZero else dsw) = dsw₁ at *
  split_ifs with hspace
  · have hno : dsw₁.deltaHasCompression = false := Bool.eq_false_iff.mpr fun hhas => by
      have := haligned.fixed hhas
      rw [hlen] at this
      omega
    have hstored := haligned.frame
      (dsw₁.datumBuffer ++ storedHeader dsw.typeInfo d ++ storedData dsw.typeInfo d)
      dsw₁.compareItem dsw₁.notFirstDatum
    have hitem := item_invariant hstored (lt_max_of_ite hspace)
      (.datumBuffer (dsw₁.datumBuffer.length + (storedHeader dsw.typeInfo d).length))
      (storedData dsw.typeInfo d).length dsw₁.compareItem (haligned.delta.of_false hno _) rfl
    exact (congrArg DenseInvariant (denseIncrItem_delta hstored _ _)).mp hitem
  · exact haligned

theorem putVariableLength_invariant (h : DenseInvariant dsw) (hneg : dsw.typeInfo.datumlen < 0)
    (d : Datum) : DenseInvariant (dsw.putVariableLength d).2 := by
  have hfin := finalizeRepeated_invariant h
  have htype : dsw.finalizeRepeated.typeInfo = dsw.typeInfo := by
    obtain ⟨item, size, currentSize, hfin, -⟩ := finalizeRepeated_spec dsw
    rw [hfin]
  rw [putVariableLength]
  split_ifs with hrepeated hitem hequal
  · rw [finalizeRepeated, if_pos hrepeated.1] at hfin
    exact storeVariableLength_invariant hfin hneg d
  · exact rleMarkRepeat_invariant h hitem.1 hitem.2
  · exact storeVariableLength_invariant hfin (htype ▸ hneg) d
  · exact storeVariableLength_invariant h hneg d

theorem storeFixedLength_invariant (h : DenseInvariant dsw) {d : Datum}
    {r : ℤ × DatumStreamBlockWrite} (hput : dsw.storeFixedLength d = .ok r) :
    DenseInvariant r.2 := by
  rw [storeFixedLength] at hput
  by_cases hspace : dsw.denseHasSpaceItem dsw.typeInfo.datumlen.toNat
  · rw [if_neg (not_not.mpr hspace), putFixedLengthItem] at hput
    by_cases hlength : lengthOk dsw.typeInfo
    · rw [if_pos hlength] at hput
      dsimp only at hput
      cases hmaintain : (denseIncrItem
          { dsw with datumBuffer := dsw.datumBuffer ++ fixedBytes dsw.typeInfo d }
          (.datumBuffer dsw.datumBuffer.length) dsw.typeInfo.datumlen.toNat).deltaMaintain
          d.word with
      | error e =>
        rw [hmaintain] at hput
        cases hput
      | ok dsw' =>
        rw [hmaintain] at hput
        cases hput
        have hstored := h.frame (dsw.datumBuffer ++ fixedBytes dsw.typeInfo d) dsw.compareItem
          dsw.notFirstDatum
        exact item_maintain_invariant hstored (lt_max_of_ite hspace) hmaintain
    · rw [if_neg hlength] at hput
      cases hput
  · rw [if_pos hspace] at hput
    cases hput
    exact h

theorem performDeltaCompression_invariant (h : DenseInvariant dsw) {d : UInt64}
    {r : DeltaCompressionStatus × DatumStreamBlockWrite}
    (hdelta : dsw.performDeltaCompression d = .ok r) : DenseInvariant r.2 := by
  rw [performDeltaCompression] at hdelta
  by_cases hwant : dsw.deltaWantCompression
  · rw [if_neg (not_not.mpr hwant)] at hdelta
    by_cases hfirst : dsw.notFirstDatum
    · rw [if_neg (not_not.mpr hfirst)] at hdelta
      cases hto : dsw.deltaTo d with
      | none =>
        rw [hto] at hdelta
        cases hdelta
      | some step =>
        obtain ⟨delta, sign⟩ := step
        have hfixed : 0 ≤ dsw.typeInfo.datumlen := by
          rw [deltaTo] at hto
          split_ifs at hto <;> omega
        rw [hto] at hdelta
        dsimp only at hdelta
        split_ifs at hdelta with hrange hspace
        · cases hdelta
          exact h
        · cases hset : dsw.setCompareItem d with
          | none =>
            rw [hset] at hdelta
            cases hdelta
          | some dsw₁ =>
            obtain ⟨compareItem, rfl⟩ := setCompareItem_spec hset
            rw [hset] at hdelta
            cases hdelta
            exact delta_invariant (h.frame dsw.datumBuffer compareItem dsw.notFirstDatum)
              hwant hfixed (lt_max_of_ite hspace) delta sign
        · cases hdelta
          exact h
    · rw [if_pos hfirst] at hdelta
      cases hdelta
      exact h.frame dsw.datumBuffer dsw.compareItem true
  · rw [if_pos hwant] at hdelta
    cases hdelta
    exact h

theorem deltaOrStore_invariant (h : DenseInvariant dsw) {d : Datum} {r : ℤ × DatumStreamBlockWrite}
    (hput : dsw.deltaOrStore d = .ok r) : DenseInvariant r.2 := by
  rw [deltaOrStore] at hput
  cases hdelta : dsw.performDeltaCompression d.word with
  | error e =>
    rw [hdelta] at hput
    cases hput
  | ok applied =>
    have happlied := performDeltaCompression_invariant h hdelta
    obtain ⟨status, dsw₁⟩ := applied
    rw [hdelta] at hput
    cases status with
    | ok =>
      cases hput
      exact happlied
    | error =>
      cases hput
      exact happlied
    | notApplied => exact storeFixedLength_invariant happlied hput

theorem putFixedLength_invariant (h : DenseInvariant dsw) {d : Datum}
    {r : ℤ × DatumStreamBlockWrite} (hput : dsw.putFixedLength d = .ok r) : DenseInvariant r.2 := by
  have hfin := finalizeRepeated_invariant h
  rw [putFixedLength] at hput
  split_ifs at hput with hrepeated hitem hsize hlength hequal
  · rw [finalizeRepeated, if_pos hrepeated.1] at hfin
    exact deltaOrStore_invariant hfin hput
  · cases hput
    exact rleMarkRepeat_invariant h hitem.1 hitem.2
  · exact deltaOrStore_invariant hfin hput
  · exact deltaOrStore_invariant h hput

/-- **A put keeps the counters together**, whether the datum is taken or not. -/
theorem put_invariant (h : DenseInvariant dsw) {d : Datum} {null : Bool}
    {r : ℤ × DatumStreamBlockWrite} (hput : dsw.putDense d null = .ok r) : DenseInvariant r.2 := by
  rw [putDense] at hput
  split_ifs at hput with hnull hspace hneg
  · cases hput
    exact null_invariant h hspace
  · cases hput
    exact h
  · cases hput
    exact putVariableLength_invariant h hneg d
  · exact putFixedLength_invariant h hput

/-! ## The blocks of a writer -/

theorem started_init (buffer : ℕ → UInt8) (bufferSize n : ℕ) :
    (DatumStreamBitMapWrite.init buffer bufferSize).Started false n :=
  ⟨rfl, fun _ => rfl⟩

/-- What is not wanted is not reset, and has never been set. -/
theorem getReady_invariant (h : DenseInvariant dsw) : DenseInvariant dsw.getReady := by
  simp only [getReady]
  split_ifs with hrle hdelta hdelta
  · exact
      { null := started_init _ _ _
        compress := started_init _ _ _
        delta := started_init _ _ _
        always := rfl
        nth := rfl
        noRepeats := fun _ => ⟨rfl, rfl⟩
        wantRle := fun hhas => Bool.noConfusion hhas
        wantDelta := fun hhas => Bool.noConfusion hhas
        fixed := fun hhas => Bool.noConfusion hhas
        item := fun _ hsome => Bool.noConfusion hsome
        max := Nat.zero_le _ }
  · have hhas : dsw.deltaHasCompression = false := Bool.eq_false_iff.mpr (mt h.wantDelta hdelta)
    exact
      { null := started_init _ _ _
        compress := started_init _ _ _
        delta := h.delta.of_false hhas _
        always := by
          change 0 = 0 + (0 + dsw.deltaBitmap.bitOnCount)
          rw [h.delta.bitOnCount hhas]
        nth := rfl
        noRepeats := fun _ => ⟨rfl, rfl⟩
        wantRle := fun hhas => Bool.noConfusion hhas
        wantDelta := h.wantDelta
        fixed := h.fixed
        item := fun _ hsome => Bool.noConfusion hsome
        max := Nat.zero_le _ }
  · have hhas : dsw.rleHasCompression = false := Bool.eq_false_iff.mpr (mt h.wantRle hrle)
    exact
      { null := started_init _ _ _
        compress := h.compress.of_false hhas _
        delta := started_init _ _ _
        always := rfl
        nth := by
          change 0 + dsw.rleCompressBitmap.bitOnCount = 0 + dsw.rleTotalRepeatItemsWritten
          rw [h.compress.bitOnCount hhas, (h.noRepeats hhas).1]
        noRepeats := h.noRepeats
        wantRle := h.wantRle
        wantDelta := fun hhas => Bool.noConfusion hhas
        fixed := fun hhas => Bool.noConfusion hhas
        item := fun hwant => absurd hwant hrle
        max := Nat.zero_le _ }
  · have hrleHas : dsw.rleHasCompression = false := Bool.eq_false_iff.mpr (mt h.wantRle hrle)
    have hdeltaHas : dsw.deltaHasCompression = false :=
      Bool.eq_false_iff.mpr (mt h.wantDelta hdelta)
    exact
      { null := started_init _ _ _
        compress := h.compress.of_false hrleHas _
        delta := h.delta.of_false hdeltaHas _
        always := by
          change 0 = 0 + (0 + dsw.deltaBitmap.bitOnCount)
          rw [h.delta.bitOnCount hdeltaHas]
        nth := by
          change 0 + dsw.rleCompressBitmap.bitOnCount = 0 + dsw.rleTotalRepeatItemsWritten
          rw [h.compress.bitOnCount hrleHas, (h.noRepeats hrleHas).1]
        noRepeats := h.noRepeats
        wantRle := h.wantRle
        wantDelta := h.wantDelta
        fixed := h.fixed
        item := fun hwant => absurd hwant hrle
        max := Nat.zero_le _ }

theorem init_invariant (args : InitArgs) : DenseInvariant (init args) := by
  refine getReady_invariant
    { null := started_init _ _ _
      compress := started_init _ _ _
      delta := started_init _ _ _
      always := rfl
      nth := rfl
      noRepeats := fun _ => ⟨rfl, rfl⟩
      wantRle := fun hhas => Bool.noConfusion hhas
      wantDelta := fun hhas => Bool.noConfusion hhas
      fixed := fun hhas => Bool.noConfusion hhas
      item := fun _ hsome => Bool.noConfusion hsome
      max := Nat.zero_le _ }

/-- What is done with a writer. -/
inductive WriteOp
  | put (d : Datum) (null : Bool)
  | getReady

/-- An error ends the use of the writer. -/
def perform (dsw : DatumStreamBlockWrite) : WriteOp → Option DatumStreamBlockWrite
  | .put d null =>
    match dsw.putDense d null with
    | .ok r => some r.2
    | .error _ => none
  | .getReady => some dsw.getReady

theorem perform_invariant {op : WriteOp} {dsw' : DatumStreamBlockWrite} (h : DenseInvariant dsw)
    (hop : perform dsw op = some dsw') : DenseInvariant dsw' := by
  cases op with
  | put d null =>
    rw [perform] at hop
    cases hput : dsw.putDense d null with
    | error e =>
      rw [hput] at hop
      cases hop
    | ok r =>
      rw [hput] at hop
      cases hop
      exact put_invariant h hput
  | getReady =>
    cases hop
    exact getReady_invariant h

theorem run_denseInvariant (args : InitArgs) (ops : List WriteOp)
    (hrun : run perform (init args) ops = some dsw) : DenseInvariant dsw :=
  run_invariant (fun _ _ _ h hop => perform_invariant h hop) (init_invariant args) hrun

/-! ## The check -/

inductive DenseInvariantError
  | nth
  | nullOnCount
  | compressPosition
  | nthCompress
  | nthNullCompress
  | nullCount
  | deltaPosition
  | deltaCount

/-- `DatumStreamBlockWrite_CheckDenseInvariant`, with its errors in their order. -/
def checkDenseInvariant (dsw : DatumStreamBlockWrite) : Except DenseInvariantError Unit :=
  let currentDeltaBitMapCount : ℤ :=
    if dsw.deltaHasCompression then dsw.deltaBitmap.bitCount else 0
  let currentDeltaBitMapPosition : ℤ :=
    if dsw.deltaHasCompression then dsw.deltaBitmap.bitCount - 1 else 0
  let currentDeltaBitMapOnCount : ℤ :=
    if dsw.deltaHasCompression then dsw.deltaBitmap.bitOnCount else 0
  let totalDatumCount : ℤ := dsw.physicalDatumCount + currentDeltaBitMapOnCount
  let currentNullBitMapOnCount : ℤ := dsw.nullBitmap.bitOnCount
  let currentCompressBitMapCount : ℤ := dsw.rleCompressBitmap.bitCount
  let currentCompressBitMapOffCount : ℤ :=
    currentCompressBitMapCount - dsw.rleCompressBitmap.bitOnCount
  if ¬ dsw.rleHasCompression ∧ ¬ dsw.hasNull ∧ dsw.nth ≠ totalDatumCount then .error .nth
  else if ¬ dsw.rleHasCompression ∧ dsw.hasNull ∧
      currentNullBitMapOnCount ≠ dsw.nth - totalDatumCount then .error .nullOnCount
  else if dsw.rleHasCompression ∧
      currentCompressBitMapCount - 1 ≠
        ((dsw.physicalDatumCount : ℤ) - 1) + currentDeltaBitMapOnCount then .error .compressPosition
  else if dsw.rleHasCompression ∧ ¬ dsw.hasNull ∧
      dsw.nth ≠ currentCompressBitMapOffCount + dsw.rleTotalRepeatItemsWritten then
    .error .nthCompress
  else if dsw.rleHasCompression ∧ dsw.hasNull ∧
      dsw.nth ≠ currentNullBitMapOnCount + currentCompressBitMapOffCount +
        dsw.rleTotalRepeatItemsWritten then
    .error .nthNullCompress
  else if dsw.rleHasCompression ∧ dsw.hasNull ∧
      dsw.nullBitmap.bitCount ≠ currentNullBitMapOnCount + currentCompressBitMapCount then
    .error .nullCount
  else if dsw.deltaHasCompression ∧
      currentDeltaBitMapPosition ≠ ((dsw.physicalDatumCount : ℤ) - 1) + currentDeltaBitMapOnCount
      then
    .error .deltaPosition
  else if dsw.deltaHasCompression ∧ dsw.rleHasCompression ∧
      currentDeltaBitMapCount ≠ currentCompressBitMapCount then
    .error .deltaCount
  else .ok ()

/-- The counters of a block say how many rows it has. -/
structure DenseCounters (dsw : DatumStreamBlockWrite) : Prop where
  nth : (dsw.nth : ℤ) =
    if dsw.rleHasCompression then
      dsw.nullBitmap.bitOnCount +
        ((dsw.rleCompressBitmap.bitCount : ℤ) - dsw.rleCompressBitmap.bitOnCount) +
        dsw.rleTotalRepeatItemsWritten
    else dsw.physicalDatumCount + dsw.deltaBitmap.bitOnCount + dsw.nullBitmap.bitOnCount
  compressCount : dsw.rleHasCompression →
    dsw.rleCompressBitmap.bitCount = dsw.physicalDatumCount + dsw.deltaBitmap.bitOnCount
  deltaCount : dsw.deltaHasCompression →
    dsw.deltaBitmap.bitCount = dsw.physicalDatumCount + dsw.deltaBitmap.bitOnCount
  nullCount : dsw.hasNull → dsw.nullBitmap.bitCount = dsw.nullBitmap.bitOnCount +
    if dsw.rleHasCompression then dsw.rleCompressBitmap.bitCount
    else dsw.physicalDatumCount + dsw.deltaBitmap.bitOnCount

theorem DenseInvariant.counters (h : DenseInvariant dsw) : DenseCounters dsw := by
  have hnth := h.nth
  have halways := h.always
  have hcompress : dsw.rleHasCompression →
      dsw.rleCompressBitmap.bitCount = dsw.physicalDatumCount + dsw.deltaBitmap.bitOnCount :=
    fun hrle => h.compress.bitCount.trans (if_pos hrle)
  rw [totalDatumCount] at halways
  refine ⟨?_, hcompress, fun hdelta => h.delta.bitCount.trans (if_pos hdelta), fun hnull => ?_⟩
  · split_ifs with hrle
    · have := hcompress hrle
      omega
    · have hno := Bool.eq_false_iff.mpr hrle
      have hon := h.compress.bitOnCount hno
      have htotal := (h.noRepeats hno).1
      omega
  · rw [h.null.bitCount, if_pos hnull, halways]
    split_ifs with hrle
    · rw [hcompress hrle]
    · rfl

theorem DenseInvariant.check (h : DenseInvariant dsw) : checkDenseInvariant dsw = .ok () := by
  have hcounters := h.counters
  have hnth := hcounters.nth
  have hon : (if dsw.deltaHasCompression then (dsw.deltaBitmap.bitOnCount : ℤ) else 0) =
      dsw.deltaBitmap.bitOnCount := by
    split_ifs with hdelta
    · rfl
    · rw [h.delta.bitOnCount (Bool.eq_false_iff.mpr hdelta), Nat.cast_zero]
  have hnull : ¬ dsw.hasNull → dsw.nullBitmap.bitOnCount = 0 := fun hno =>
    h.null.bitOnCount (Bool.eq_false_iff.mpr hno)
  rw [checkDenseInvariant, hon, if_neg, if_neg, if_neg, if_neg, if_neg, if_neg, if_neg, if_neg]
  · rintro ⟨hdelta, hrle, hne⟩
    have hdeltaCount := hcounters.deltaCount hdelta
    have hcompressCount := hcounters.compressCount hrle
    rw [if_pos hdelta] at hne
    omega
  · rintro ⟨hdelta, hne⟩
    have hdeltaCount := hcounters.deltaCount hdelta
    rw [if_pos hdelta] at hne
    omega
  · rintro ⟨hrle, hhas, hne⟩
    have hnullCount := hcounters.nullCount hhas
    rw [if_pos hrle] at hnullCount
    omega
  · rintro ⟨hrle, hhas, hne⟩
    rw [if_pos hrle] at hnth
    omega
  · rintro ⟨hrle, hhas, hne⟩
    have hzero := hnull hhas
    rw [if_pos hrle] at hnth
    omega
  · rintro ⟨hrle, hne⟩
    have hcompressCount := hcounters.compressCount hrle
    omega
  · rintro ⟨hrle, hhas, hne⟩
    rw [if_neg hrle] at hnth
    omega
  · rintro ⟨hrle, hhas, hne⟩
    have hzero := hnull hhas
    rw [if_neg hrle] at hnth
    omega

/-- **The counters of a dense block.** After any puts and blocks of a new writer, with any NULLs,
repeats, deltas and items, taken or not, `DatumStreamBlockWrite_CheckDenseInvariant` finds no error
and its equations hold. -/
theorem dense_counters (args : InitArgs) (ops : List WriteOp)
    (hrun : run perform (init args) ops = some dsw) :
    checkDenseInvariant dsw = .ok () ∧ DenseCounters dsw :=
  have h := run_denseInvariant args ops hrun
  ⟨h.check, h.counters⟩

/-- An `int4` column with RLE and delta compression. -/
def int4Args : InitArgs where
  typeInfo := ⟨4, 23, .int, true⟩
  rleWantCompression := true
  deltaWantCompression := true
  initialMaxDatumPerBlock := 63
  maxDatumPerBlock := 1000
  maxDataBlockSize := 1000
  useSmallInitialBuffers := false

def putInt4 (d : UInt64) : WriteOp := .put ⟨d, [], false⟩ false

def putNull : WriteOp := .put ⟨0, [], false⟩ true

/-- An item with two repeats, a NULL, two deltas and an item that is too far away. -/
def sevenRows : List WriteOp :=
  [putInt4 7, putInt4 7, putInt4 7, putNull, putInt4 9, putInt4 5, putInt4 0x40000000]

theorem dense_counters_seven_rows : ∃ dsw, run perform (init int4Args) sevenRows = some dsw ∧
    checkDenseInvariant dsw = .ok () ∧ DenseCounters dsw ∧ dsw.nth = 7 ∧
    dsw.physicalDatumCount = 2 ∧ dsw.rleTotalRepeatItemsWritten = 3 ∧
    dsw.nullBitmap.bitOnCount = 1 ∧ dsw.deltaBitmap.bitOnCount = 2 ∧
    dsw.rleCompressBitmap.bitCount = 4 ∧ dsw.rleCompressBitmap.bitOnCount = 1 := by
  have hsome : (run perform (init int4Args) sevenRows).isSome := by decide
  obtain ⟨dsw, hrun⟩ := Option.isSome_iff_exists.mp hsome
  have hcounts : ∀ dsw ∈ run perform (init int4Args) sevenRows, dsw.nth = 7 ∧
      dsw.physicalDatumCount = 2 ∧ dsw.rleTotalRepeatItemsWritten = 3 ∧
      dsw.nullBitmap.bitOnCount = 1 ∧ dsw.deltaBitmap.bitOnCount = 2 ∧
      dsw.rleCompressBitmap.bitCount = 4 ∧ dsw.rleCompressBitmap.bitOnCount = 1 := by
    decide
  obtain ⟨hcheck, hcounters⟩ := dense_counters int4Args sevenRows hrun
  exact ⟨dsw, hrun, hcheck, hcounters, hcounts dsw hrun⟩

end DatumStreamBlockWrite

end Hdb.DatumStream
