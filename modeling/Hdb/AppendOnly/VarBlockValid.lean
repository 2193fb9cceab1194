import Hdb.AppendOnly.VarBlock

/-!
# What the validator of VarBlocks checks

The validator has a loop over the offsets behind the first one, but the loop does not read them: it
compares the first offset with itself. So an accepted block with a second offset stays accepted
whatever that offset is, and is sound for sure only when it has none.

Main result: `varBlockIsValid_sound_iff`.
-/

namespace Hdb.AppendOnly

open VarBlockHeader

variable {buffer : List UInt8}

/-- The loop never finds anything. -/
theorem checkOffsets_header (itemLenSum items : ℕ) :
    checkOffsets itemLenSum varBlockHeaderLen items = .ok := by
  induction items with
  | zero => rfl
  | succ items ih =>
    rw [checkOffsets, if_neg (lt_irrefl _), if_neg (by omega)]
    exact ih

/-- An offset of the block. -/
def offsetAt (buffer : List UInt8) (i : ℕ) : ℕ :=
  varBlockGetOffset buffer (offsetToOffsetArray buffer) i

/-- An accepted block has room for its offsets, and the first of them is right. -/
theorem varBlockIsValid_ok (h : varBlockIsValid buffer = .ok) :
    offsetToOffsetArray buffer + itemCount buffer * multiplier buffer ≤ buffer.length ∧
      (0 < itemCount buffer → offsetAt buffer 0 = varBlockHeaderLen) := by
  rw [varBlockIsValid] at h
  dsimp only at h
  split_ifs at h with hheader hsum harray hpad hzero hlen hlen hoffset hloop hpad'
  · exact absurd h hheader
  · rw [hzero, Nat.zero_mul]
    exact ⟨Nat.le_of_not_lt harray, fun hpos => absurd hpos (lt_irrefl 0)⟩
  · exact absurd h hloop
  · exact ⟨by omega, fun _ => not_not.mp hoffset⟩

/-- The item area is a part of the block. -/
theorem itemArea_le (h : varBlockIsValid buffer = .ok) :
    varBlockHeaderLen + itemLenSum buffer ≤ buffer.length := by
  have harray := (Nat.le_add_right _ _).trans (varBlockIsValid_ok h).1
  rw [offsetToOffsetArray] at harray
  omega

/-- A place and a length in the item area. -/
def InItemArea (buffer : List UInt8) (r : ℤ × ℤ) : Prop :=
  0 ≤ r.2 ∧ (varBlockHeaderLen : ℤ) ≤ r.1 ∧ r.1 + r.2 ≤ varBlockHeaderLen + itemLenSum buffer

structure Sound (buffer : List UInt8) : Prop where
  area : varBlockHeaderLen + itemLenSum buffer ≤ buffer.length
  ordered : ∀ i, i + 1 < itemCount buffer → offsetAt buffer i ≤ offsetAt buffer (i + 1)
  range : ∀ i < itemCount buffer, varBlockHeaderLen ≤ offsetAt buffer i ∧
    offsetAt buffer i ≤ varBlockHeaderLen + itemLenSum buffer
  indexed : ∀ i < itemCount buffer, InItemArea buffer ((VarBlockReader.init buffer).getItemPtr i)
  sequential : ∀ calls, ∀ r ∈ (VarBlockReader.init buffer).getItemPtrs calls, InItemArea buffer r

/-- The comparisons that the loop was written for. -/
def OffsetsInOrder (buffer : List UInt8) : Prop :=
  ∀ i, i + 1 < itemCount buffer → offsetAt buffer i ≤ offsetAt buffer (i + 1) ∧
    offsetAt buffer (i + 1) ≤ varBlockHeaderLen + itemLenSum buffer

/-- A reader before an item, with both ways of reading at the same place. -/
structure AtItem (buffer : List UInt8) (reader : VarBlockReader) : Prop where
  bytes : reader.buffer = buffer
  array : reader.offsetToOffsetArray = offsetToOffsetArray buffer
  place : reader.nextIndex < itemCount buffer →
    reader.nextItemOffset = offsetAt buffer reader.nextIndex

variable {reader reader' : VarBlockReader} {r : ℤ × ℤ}

theorem atItem_init (h : 0 < itemCount buffer → offsetAt buffer 0 = varBlockHeaderLen) :
    AtItem buffer (.init buffer) where
  bytes := rfl
  array := rfl
  place hpos := by rw [VarBlockReader.init, h hpos]

theorem AtItem.getOffset (h : AtItem buffer reader) (i : ℕ) :
    reader.getOffset i = offsetAt buffer i := by
  rw [VarBlockReader.getOffset, h.bytes, h.array, offsetAt]

/-- The next item is the one that the index gives, and the reader moves on to the item behind it. -/
theorem AtItem.getNextItemPtr (h : AtItem buffer reader)
    (hnext : reader.getNextItemPtr = some (r, reader')) :
    reader.nextIndex < itemCount buffer ∧ r = reader.getItemPtr reader.nextIndex ∧
      AtItem buffer reader' ∧ reader'.nextIndex = reader.nextIndex + 1 := by
  rw [VarBlockReader.getNextItemPtr, h.bytes] at hnext
  split_ifs at hnext with hend
  cases hnext
  have hlt := Nat.lt_of_not_le hend
  refine ⟨hlt, ?_, ⟨rfl, h.array, fun hlt' => ?_⟩, rfl⟩
  · rw [VarBlockReader.getItemPtr, h.getOffset, h.place hlt]
  · show reader.nextItemOffset + reader.getItemLen reader.nextIndex =
      offsetAt buffer (reader.nextIndex + 1)
    rw [VarBlockReader.getItemLen, h.bytes, if_pos hlt', h.getOffset, h.getOffset, h.place hlt]
    omega

theorem AtItem.getItemPtr_eq (h : AtItem buffer reader) {i : ℕ} :
    reader.getItemPtr i = (VarBlockReader.init buffer).getItemPtr i := by
  rw [VarBlockReader.getItemPtr, VarBlockReader.getItemPtr, VarBlockReader.getItemLen,
    VarBlockReader.getItemLen, h.bytes, h.getOffset, h.getOffset]
  rfl

/-- What the calls return is what the index gives. -/
theorem AtItem.mem_getItemPtrs (h : AtItem buffer reader) {calls : ℕ}
    (hr : r ∈ reader.getItemPtrs calls) :
    ∃ i < itemCount buffer, r = (VarBlockReader.init buffer).getItemPtr i := by
  induction calls generalizing reader with
  | zero => cases hr
  | succ calls ih =>
    rw [VarBlockReader.getItemPtrs] at hr
    cases hnext : reader.getNextItemPtr with
    | none =>
      rw [hnext] at hr
      cases hr
    | some next =>
      obtain ⟨hlt, hitem, h', -⟩ := h.getNextItemPtr hnext
      rw [hnext] at hr
      obtain rfl | hr := List.mem_cons.mp hr
      · exact ⟨reader.nextIndex, hlt, hitem.trans h.getItemPtr_eq⟩
      · exact ih h' hr

/-- As many calls as there are items return all of them. -/
theorem AtItem.getItemPtrs_eq (h : AtItem buffer reader) {calls : ℕ}
    (hcalls : itemCount buffer ≤ reader.nextIndex + calls) :
    reader.getItemPtrs calls =
      (List.range' reader.nextIndex (itemCount buffer - reader.nextIndex)).map fun i =>
        (VarBlockReader.init buffer).getItemPtr i := by
  induction calls generalizing reader with
  | zero =>
    have hzero : itemCount buffer ≤ reader.nextIndex := hcalls
    rw [VarBlockReader.getItemPtrs, Nat.sub_eq_zero_of_le hzero]
    rfl
  | succ calls ih =>
    rw [VarBlockReader.getItemPtrs]
    cases hnext : reader.getNextItemPtr with
    | none =>
      have hend : itemCount buffer ≤ reader.nextIndex := by
        rw [VarBlockReader.getNextItemPtr, h.bytes] at hnext
        split_ifs at hnext with hend
        exact hend
      rw [Nat.sub_eq_zero_of_le hend]
      rfl
    | some next =>
      obtain ⟨hlt, hitem, h', hindex⟩ := h.getNextItemPtr hnext
      have hrest : itemCount buffer - reader.nextIndex =
          itemCount buffer - next.2.nextIndex + 1 := by omega
      rw [hrest, List.range'_succ, List.map_cons, ← hindex]
      exact List.cons_eq_cons.mpr ⟨hitem.trans h.getItemPtr_eq, ih h' (by omega)⟩

/-- The offsets between which an item lies. -/
theorem inItemArea_getItemPtr (h : OffsetsInOrder buffer)
    (hfirst : offsetAt buffer 0 = varBlockHeaderLen) {i : ℕ} (hi : i < itemCount buffer) :
    varBlockHeaderLen ≤ offsetAt buffer i ∧
      offsetAt buffer i ≤ varBlockHeaderLen + itemLenSum buffer ∧
      InItemArea buffer ((VarBlockReader.init buffer).getItemPtr i) := by
  have hrange : varBlockHeaderLen ≤ offsetAt buffer i ∧
      offsetAt buffer i ≤ varBlockHeaderLen + itemLenSum buffer := by
    induction i with
    | zero => omega
    | succ i ih =>
      obtain ⟨hle, hend⟩ := h i hi
      exact ⟨(ih (Nat.lt_of_succ_lt hi)).1.trans hle, hend⟩
  refine ⟨hrange.1, hrange.2, ?_⟩
  have hoffset : ∀ j, (VarBlockReader.init buffer).getOffset j = offsetAt buffer j := fun _ => rfl
  rw [InItemArea, VarBlockReader.getItemPtr, VarBlockReader.getItemLen, hoffset, hoffset]
  dsimp only [VarBlockReader.init]
  split_ifs with hlast
  · have hnext := h i hlast
    omega
  · omega

/-- A block is sound if the comparisons that the loop was written for hold of its offsets. -/
theorem sound_of_offsetsInOrder (hvalid : varBlockIsValid buffer = .ok)
    (h : OffsetsInOrder buffer) : Sound buffer := by
  obtain ⟨-, hfirst⟩ := varBlockIsValid_ok hvalid
  have hitem : ∀ i < itemCount buffer, varBlockHeaderLen ≤ offsetAt buffer i ∧
      offsetAt buffer i ≤ varBlockHeaderLen + itemLenSum buffer ∧
      InItemArea buffer ((VarBlockReader.init buffer).getItemPtr i) := fun i hi =>
    inItemArea_getItemPtr h (hfirst (Nat.zero_lt_of_lt hi)) hi
  constructor
  · exact itemArea_le hvalid
  · exact fun i hi => (h i hi).1
  · exact fun i hi => ⟨(hitem i hi).1, (hitem i hi).2.1⟩
  · exact fun i hi => (hitem i hi).2.2
  · intro calls r hr
    obtain ⟨i, hi, rfl⟩ := (atItem_init hfirst).mem_getItemPtrs hr
    exact (hitem i hi).2.2

/-! ## The second offset is not looked at -/

/-- The block with another second offset, which is zero. -/
def zeroSecond (buffer : List UInt8) : List UInt8 :=
  writeAt (offsetToOffsetArray buffer + multiplier buffer)
    (List.replicate (multiplier buffer) 0) buffer

/-- An offset is as many bytes as the multiplier says. -/
theorem varBlockGetOffset_eq (buffer : List UInt8) (offset i : ℕ) :
    varBlockGetOffset buffer offset i =
      ofLittleEndian (readAt (offset + multiplier buffer * i) (multiplier buffer) buffer) := by
  rw [varBlockGetOffset, multiplier]
  split <;> rfl

section zeroSecond

variable (hvalid : varBlockIsValid buffer = .ok) (htwo : 1 < itemCount buffer)

include hvalid htwo

theorem zeroSecond_le :
    offsetToOffsetArray buffer + multiplier buffer +
      (List.replicate (multiplier buffer) (0 : UInt8)).length ≤ buffer.length := by
  obtain ⟨hroom, -⟩ := varBlockIsValid_ok hvalid
  have htwice : 2 * multiplier buffer ≤ itemCount buffer * multiplier buffer :=
    Nat.mul_le_mul_right _ htwo
  rw [List.length_replicate]
  omega

theorem length_zeroSecond : (zeroSecond buffer).length = buffer.length :=
  length_writeAt (zeroSecond_le hvalid htwo)

theorem readAt_zeroSecond {offset size : ℕ}
    (hapart : offset + size ≤ offsetToOffsetArray buffer + multiplier buffer ∨
      offsetToOffsetArray buffer + 2 * multiplier buffer ≤ offset) :
    readAt offset size (zeroSecond buffer) = readAt offset size buffer := by
  refine readAt_writeAt_of_apart (zeroSecond_le hvalid htwo) ?_
  rw [List.length_replicate]
  omega

theorem bytes03_zeroSecond : bytes03 (zeroSecond buffer) = bytes03 buffer := by
  rw [bytes03, readAt_zeroSecond hvalid htwo, bytes03]
  rw [offsetToOffsetArray, varBlockHeaderLen]
  omega

theorem bytes47_zeroSecond : bytes47 (zeroSecond buffer) = bytes47 buffer := by
  rw [bytes47, readAt_zeroSecond hvalid htwo, bytes47]
  rw [offsetToOffsetArray, varBlockHeaderLen]
  omega

theorem multiplier_zeroSecond : multiplier (zeroSecond buffer) = multiplier buffer := by
  rw [multiplier, offsetsAreSmall, bytes03_zeroSecond hvalid htwo, multiplier, offsetsAreSmall]

theorem itemLenSum_zeroSecond : itemLenSum (zeroSecond buffer) = itemLenSum buffer := by
  rw [itemLenSum, bytes03_zeroSecond hvalid htwo, itemLenSum]

theorem itemCount_zeroSecond : itemCount (zeroSecond buffer) = itemCount buffer := by
  rw [itemCount, bytes47_zeroSecond hvalid htwo, itemCount]

theorem offsetToOffsetArray_zeroSecond :
    offsetToOffsetArray (zeroSecond buffer) = offsetToOffsetArray buffer := by
  rw [offsetToOffsetArray, itemLenSum_zeroSecond hvalid htwo, offsetToOffsetArray]

theorem varBlockHeaderIsValid_zeroSecond :
    varBlockHeaderIsValid (zeroSecond buffer) = varBlockHeaderIsValid buffer := by
  rw [varBlockHeaderIsValid, version, reserved, moreReserved, bytes03_zeroSecond hvalid htwo,
    bytes47_zeroSecond hvalid htwo]
  rfl

theorem varBlockGetOffset_zeroSecond :
    varBlockGetOffset (zeroSecond buffer) (offsetToOffsetArray buffer) 0 =
      varBlockGetOffset buffer (offsetToOffsetArray buffer) 0 := by
  rw [varBlockGetOffset_eq, multiplier_zeroSecond hvalid htwo, readAt_zeroSecond hvalid htwo,
    ← varBlockGetOffset_eq]
  omega

/-- **The block is accepted as before.** -/
theorem varBlockIsValid_zeroSecond : varBlockIsValid (zeroSecond buffer) = .ok := by
  have hpad : readAt (varBlockHeaderLen + itemLenSum buffer)
      (offsetToOffsetArray buffer - (varBlockHeaderLen + itemLenSum buffer)) (zeroSecond buffer) =
        readAt (varBlockHeaderLen + itemLenSum buffer)
          (offsetToOffsetArray buffer - (varBlockHeaderLen + itemLenSum buffer)) buffer := by
    refine readAt_zeroSecond hvalid htwo (.inl ?_)
    rw [offsetToOffsetArray]
    omega
  have hpad' : ∀ size,
      readAt (offsetToOffsetArray buffer + itemCount buffer * multiplier buffer) size
          (zeroSecond buffer) =
        readAt (offsetToOffsetArray buffer + itemCount buffer * multiplier buffer) size buffer :=
    fun size => readAt_zeroSecond hvalid htwo
      (.inr (Nat.add_le_add_left (Nat.mul_le_mul_right _ htwo) _))
  rw [← hvalid]
  unfold varBlockIsValid
  dsimp only
  rw [varBlockHeaderIsValid_zeroSecond hvalid htwo, itemLenSum_zeroSecond hvalid htwo,
    offsetToOffsetArray_zeroSecond hvalid htwo, itemCount_zeroSecond hvalid htwo,
    multiplier_zeroSecond hvalid htwo, length_zeroSecond hvalid htwo,
    varBlockGetOffset_zeroSecond hvalid htwo, hpad, hpad']

theorem offsetAt_zeroSecond : offsetAt (zeroSecond buffer) 1 = 0 := by
  have hread : readAt (offsetToOffsetArray buffer + multiplier buffer)
      (List.replicate (multiplier buffer) (0 : UInt8)).length (zeroSecond buffer) =
        List.replicate (multiplier buffer) 0 :=
    readAt_writeAt_self ((Nat.le_add_right _ _).trans (zeroSecond_le hvalid htwo))
  rw [List.length_replicate] at hread
  rw [offsetAt, varBlockGetOffset_eq, offsetToOffsetArray_zeroSecond hvalid htwo,
    multiplier_zeroSecond hvalid htwo, Nat.mul_one, hread]
  rw [multiplier]
  split <;> rfl

theorem not_sound_zeroSecond : ¬ Sound (zeroSecond buffer) := by
  intro h
  have hcount := itemCount_zeroSecond hvalid htwo
  have hrange := (h.range 1 (hcount ▸ htwo)).1
  rw [offsetAt_zeroSecond hvalid htwo] at hrange
  exact absurd hrange (by decide)

theorem take_zeroSecond :
    (zeroSecond buffer).take varBlockHeaderLen = buffer.take varBlockHeaderLen := by
  have hread : readAt 0 varBlockHeaderLen (zeroSecond buffer) =
      readAt 0 varBlockHeaderLen buffer := by
    refine readAt_zeroSecond hvalid htwo (.inl ?_)
    rw [offsetToOffsetArray]
    omega
  exact hread

end zeroSecond

/-- **Soundness of the validator.** For each header with which a block is accepted at all, the
accepted blocks are sound if and only if it counts at most one item. -/
theorem varBlockIsValid_sound_iff (buffer : List UInt8) (hvalid : varBlockIsValid buffer = .ok) :
    (∀ buffer' : List UInt8, buffer'.take varBlockHeaderLen = buffer.take varBlockHeaderLen →
        varBlockIsValid buffer' = .ok → Sound buffer') ↔ itemCount buffer ≤ 1 := by
  constructor
  · intro h
    by_contra htwo
    rw [not_le] at htwo
    exact not_sound_zeroSecond hvalid htwo
      (h _ (take_zeroSecond hvalid htwo) (varBlockIsValid_zeroSecond hvalid htwo))
  · intro hone buffer' hheader hvalid'
    have hcount : itemCount buffer' = itemCount buffer := by
      rw [itemCount, itemCount, bytes47, bytes47,
        ← readAt_take (n := varBlockHeaderLen) (by decide),
        hheader, readAt_take (by decide)]
    exact sound_of_offsetsInOrder hvalid' fun i hi => absurd hi (by omega)

/-- A block of two items whose second offset points far behind it. -/
theorem varBlockIsValid_not_sound :
    ¬ ∀ buffer : List UInt8, varBlockIsValid buffer = .ok → Sound buffer := by
  intro h
  have hsound := h [1, 0, 0, 0x81, 2, 0, 0, 0, 5, 0, 8, 0, 0xFF, 0xFF] (by decide)
  exact absurd (hsound.range 1 (by decide)).2 (by decide)

/-- A block of one item. -/
theorem varBlockIsValid_sound_one_item :
    Sound [1, 0, 0, 0x81, 1, 0, 0, 0, 5, 0, 8, 0] :=
  (varBlockIsValid_sound_iff [1, 0, 0, 0x81, 1, 0, 0, 0, 5, 0, 8, 0] (by decide)).mpr (by decide) _
    rfl (by decide)

end Hdb.AppendOnly
