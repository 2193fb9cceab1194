import Hdb.AppendOnly.VarBlockValid

/-!
# The layout of a VarBlock

`blockBytes small items` is the block of some items: the header, the items, a pad, the offsets and a
pad again. The validator accepts it, and both ways of reading give the items.

Main results: `varBlockIsValid_blockBytes`, `getItemPtrs_blockBytes`, `itemAt_blockBytes`.
-/

namespace Hdb.AppendOnly

open VarBlockHeader

/-! ## The words of the header -/

def headerBytes (w v : ℕ) : List UInt8 := toLittleEndian 4 w ++ toLittleEndian 4 v

/-- The version, and the bit for small offsets. -/
def headWord (small : Bool) : ℕ := if small then 0x81000000 else 0x01000000

/-- The size of an offset. -/
def offsetWidth (small : Bool) : ℕ := if small then 2 else 3

@[simp] theorem length_headerBytes (w v : ℕ) : (headerBytes w v).length = 8 := by
  simp [headerBytes]

variable {small : Bool} {w v sum : ℕ} {rest : List UInt8}

theorem bytes03_headerBytes (hw : w < 2 ^ 32) : bytes03 (headerBytes w v ++ rest) = w := by
  have hread : readAt 0 4 (headerBytes w v ++ rest) = toLittleEndian 4 w := by
    rw [headerBytes, List.append_assoc]
    exact readAt_append [] _ _ rfl (length_toLittleEndian 4 w).symm
  rw [bytes03, hread, ofLittleEndian_toLittleEndian]
  exact Nat.mod_eq_of_lt hw

theorem bytes47_headerBytes (hv : v < 2 ^ 32) : bytes47 (headerBytes w v ++ rest) = v := by
  have hread : readAt 4 4 (headerBytes w v ++ rest) = toLittleEndian 4 v :=
    readAt_append _ _ _ (length_toLittleEndian 4 w).symm (length_toLittleEndian 4 v).symm
  rw [bytes47, hread, ofLittleEndian_toLittleEndian]
  exact Nat.mod_eq_of_lt hv

theorem setBytes03_headerBytes (w' : ℕ) :
    setBytes03 w' (headerBytes w v ++ rest) = headerBytes w' v ++ rest := by
  rw [setBytes03, headerBytes, headerBytes, List.append_assoc, List.append_assoc]
  exact writeAt_append [] (toLittleEndian 4 w) _ rfl
    (by rw [length_toLittleEndian, length_toLittleEndian])

theorem setBytes47_headerBytes (v' : ℕ) :
    setBytes47 v' (headerBytes w v ++ rest) = headerBytes w v' ++ rest := by
  rw [setBytes47, headerBytes, headerBytes]
  exact writeAt_append _ _ _ (length_toLittleEndian 4 w).symm
    (by rw [length_toLittleEndian, length_toLittleEndian])

theorem headWord_lt (small : Bool) (hsum : sum < 2 ^ 24) : headWord small + sum < 2 ^ 32 := by
  rw [headWord]
  split_ifs <;> omega

variable (small) in
theorem offsetsAreSmall_headerBytes (hsum : sum < 2 ^ 24) :
    offsetsAreSmall (headerBytes (headWord small + sum) v ++ rest) = small := by
  rw [offsetsAreSmall, bytes03_headerBytes (headWord_lt small hsum), Nat.shiftRight_eq_div_pow,
    headWord]
  cases small with
  | true => exact decide_eq_true (by rw [if_pos rfl]; omega)
  | false => exact decide_eq_false (by rw [if_neg Bool.false_ne_true]; omega)

variable (small) in
theorem multiplier_headerBytes (hsum : sum < 2 ^ 24) :
    multiplier (headerBytes (headWord small + sum) v ++ rest) = offsetWidth small := by
  rw [multiplier, offsetsAreSmall_headerBytes small hsum, offsetWidth]

/-- Without lengths in it yet. -/
theorem offsetsAreSmall_headWord (small : Bool) (v : ℕ) (rest : List UInt8) :
    offsetsAreSmall (headerBytes (headWord small) v ++ rest) = small := by
  rw [← Nat.add_zero (headWord small)]
  exact offsetsAreSmall_headerBytes small (Nat.two_pow_pos 24)

variable (small) in
theorem itemLenSum_headerBytes (hsum : sum < 2 ^ 24) :
    itemLenSum (headerBytes (headWord small + sum) v ++ rest) = sum := by
  rw [itemLenSum, bytes03_headerBytes (headWord_lt small hsum),
    show 0x00FFFFFF = 2 ^ 24 - 1 from rfl, Nat.and_two_pow_sub_one_eq_mod, headWord]
  split_ifs <;> omega

theorem itemCount_headerBytes (hv : v < 2 ^ 24) : itemCount (headerBytes w v ++ rest) = v := by
  rw [itemCount, bytes47_headerBytes (by omega), show 0x00FFFFFF = 2 ^ 24 - 1 from rfl,
    Nat.and_two_pow_sub_one_eq_mod, Nat.mod_eq_of_lt hv]

/-- A field of a word, as the bits above its place. -/
theorem and_shiftRight (w mask i n : ℕ) (hmask : mask >>> i = 2 ^ n - 1) :
    (w &&& mask) >>> i = w / 2 ^ i % 2 ^ n := by
  rw [Nat.shiftRight_and_distrib, hmask, Nat.and_two_pow_sub_one_eq_mod, Nat.shiftRight_eq_div_pow]

variable (small) in
theorem varBlockHeaderIsValid_headerBytes (hsum : sum < 2 ^ 24) (hv : v < 2 ^ 24) :
    varBlockHeaderIsValid (headerBytes (headWord small + sum) v ++ rest) = .ok := by
  have hversion : version (headerBytes (headWord small + sum) v ++ rest) = 1 := by
    rw [version, bytes03_headerBytes (headWord_lt small hsum), and_shiftRight _ _ 24 2 rfl,
      headWord]
    split_ifs <;> omega
  have hreserved : reserved (headerBytes (headWord small + sum) v ++ rest) = 0 := by
    rw [reserved, bytes03_headerBytes (headWord_lt small hsum), and_shiftRight _ _ 26 5 rfl,
      headWord]
    split_ifs <;> omega
  have hmore : moreReserved (headerBytes (headWord small + sum) v ++ rest) = 0 := by
    rw [moreReserved, bytes47_headerBytes (by omega), and_shiftRight _ _ 24 8 rfl]
    omega
  rw [varBlockHeaderIsValid, hversion, hreserved, hmore]
  rfl

/-! ## The offsets of the items -/

/-- Where the items start. -/
def offsetsOf : (start : ℕ) → List (List UInt8) → List ℕ
  | _, [] => []
  | start, item :: items => start :: offsetsOf (start + item.length) items

variable {start i : ℕ} {items : List (List UInt8)} {item : List UInt8}

@[simp] theorem length_offsetsOf (start : ℕ) (items : List (List UInt8)) :
    (offsetsOf start items).length = items.length := by
  induction items generalizing start with
  | nil => rfl
  | cons item items ih => rw [offsetsOf, List.length_cons, ih, List.length_cons]

theorem offsetsOf_concat (start : ℕ) (items : List (List UInt8)) (item : List UInt8) :
    offsetsOf start (items ++ [item]) =
      offsetsOf start items ++ [start + items.flatten.length] := by
  induction items generalizing start with
  | nil => rfl
  | cons head items ih =>
    rw [List.cons_append, offsetsOf, ih, offsetsOf, List.flatten_cons, List.length_append,
      Nat.add_assoc, List.cons_append]

theorem getElem_offsetsOf (start : ℕ) (items : List (List UInt8))
    (hi : i < (offsetsOf start items).length) :
    (offsetsOf start items)[i] = start + (items.take i).flatten.length := by
  induction items generalizing start i with
  | nil => exact absurd hi (Nat.not_lt_zero _)
  | cons item items ih =>
    cases i with
    | zero => rfl
    | succ i =>
      simp only [offsetsOf, List.getElem_cons_succ, ih _ (Nat.lt_of_succ_lt_succ hi),
        List.take_succ_cons, List.flatten_cons, List.length_append, Nat.add_assoc]

/-- The items before one of them, it, and the items behind it. -/
theorem flatten_split (items : List (List UInt8)) (hi : i < items.length) :
    items.flatten = (items.take i).flatten ++ items[i] ++ (items.drop (i + 1)).flatten := by
  have hsplit : items = items.take i ++ [items[i]] ++ items.drop (i + 1) := by
    rw [List.append_assoc, List.singleton_append, List.getElem_cons_drop, List.take_append_drop]
  conv_lhs => rw [hsplit, List.flatten_append, List.flatten_append]
  rw [List.flatten_singleton]

theorem length_flatten_take_succ (hi : i < items.length) :
    (items.take (i + 1)).flatten.length = (items.take i).flatten.length + items[i].length := by
  rw [List.take_succ_eq_append_getElem hi, List.flatten_append, List.length_append,
    List.flatten_singleton]

theorem length_flatten_take_le (items : List (List UInt8)) (i : ℕ) :
    (items.take i).flatten.length ≤ items.flatten.length := by
  conv_rhs => rw [← List.take_append_drop i items, List.flatten_append, List.length_append]
  exact Nat.le_add_right _ _

/-! ## The block -/

/-- The zeros up to an even length. -/
def evenPad (n : ℕ) : List UInt8 := List.replicate ((n + 1) / 2 * 2 - n) 0

/-- The bytes behind the header. -/
def blockBody (small : Bool) (items : List (List UInt8)) : List UInt8 :=
  items.flatten ++ evenPad items.flatten.length ++
    tableBytes (offsetWidth small) (offsetsOf 8 items) ++ evenPad (items.length * offsetWidth small)

def blockBytes (small : Bool) (items : List (List UInt8)) : List UInt8 :=
  headerBytes (headWord small + items.flatten.length % 2 ^ 24) (items.length % 2 ^ 24) ++
    blockBody small items

def blockLen (small : Bool) (items : List (List UInt8)) : ℕ :=
  8 + (items.flatten.length + 1) / 2 * 2 + (items.length * offsetWidth small + 1) / 2 * 2

@[simp] theorem length_evenPad (n : ℕ) : (evenPad n).length = (n + 1) / 2 * 2 - n :=
  List.length_replicate

theorem any_evenPad (n : ℕ) : (evenPad n).any (fun b => decide (b ≠ 0)) = false := by
  rw [List.any_eq_false]
  intro b hb
  rw [List.eq_of_mem_replicate hb]
  decide

theorem varBlockHeaderLen_eq : varBlockHeaderLen = 8 := rfl

theorem length_blockBytes (small : Bool) (items : List (List UInt8)) :
    (blockBytes small items).length = blockLen small items := by
  simp only [blockBytes, blockBody, blockLen, List.length_append, length_headerBytes,
    length_evenPad, length_tableBytes, length_offsetsOf, Nat.mul_comm (offsetWidth small)]
  omega

/-- What a header of 24-bit fields has room for. -/
structure Fits (small : Bool) (items : List (List UInt8)) : Prop where
  sum : items.flatten.length < 2 ^ 24
  count : items.length < 2 ^ 24
  offsets : ∀ i < items.length, 8 + (items.take i).flatten.length < 256 ^ offsetWidth small

section

variable (h : Fits small items)

include h

theorem blockBytes_eq : blockBytes small items =
    headerBytes (headWord small + items.flatten.length) items.length ++ blockBody small items := by
  rw [blockBytes, Nat.mod_eq_of_lt h.sum, Nat.mod_eq_of_lt h.count]

theorem itemLenSum_blockBytes : itemLenSum (blockBytes small items) = items.flatten.length := by
  rw [blockBytes_eq h, itemLenSum_headerBytes small h.sum]

theorem itemCount_blockBytes : itemCount (blockBytes small items) = items.length := by
  rw [blockBytes_eq h, itemCount_headerBytes h.count]

theorem offsetsAreSmall_blockBytes : offsetsAreSmall (blockBytes small items) = small := by
  rw [blockBytes_eq h, offsetsAreSmall_headerBytes small h.sum]

theorem multiplier_blockBytes : multiplier (blockBytes small items) = offsetWidth small := by
  rw [blockBytes_eq h, multiplier_headerBytes small h.sum]

theorem offsetToOffsetArray_blockBytes :
    offsetToOffsetArray (blockBytes small items) = 8 + (items.flatten.length + 1) / 2 * 2 := by
  rw [offsetToOffsetArray, itemLenSum_blockBytes h, varBlockHeaderLen]

theorem varBlockLenFromHeader_blockBytes :
    varBlockLenFromHeader (blockBytes small items) = blockLen small items := by
  rw [varBlockLenFromHeader, offsetToOffsetArray_blockBytes h, itemCount_blockBytes h,
    multiplier_blockBytes h, blockLen]

/-- An offset is where its item starts. -/
theorem offsetAt_blockBytes (hi : i < items.length) :
    offsetAt (blockBytes small items) i = 8 + (items.take i).flatten.length := by
  have hread : readAt (offsetToOffsetArray (blockBytes small items) + offsetWidth small * i)
      (offsetWidth small) (blockBytes small items) =
        toLittleEndian (offsetWidth small) (8 + (items.take i).flatten.length) := by
    rw [offsetToOffsetArray_blockBytes h,
      ← getElem_offsetsOf 8 items ((length_offsetsOf 8 items).symm ▸ hi), blockBytes_eq h,
      blockBody, ← List.append_assoc, ← List.append_assoc, ← List.append_assoc]
    refine readAt_tableBytes _ _ ?_ (by rwa [length_offsetsOf])
    rw [List.length_append, List.length_append, length_headerBytes, length_evenPad]
    omega
  have hvalue := ofLittleEndian_toLittleEndian (offsetWidth small)
    (8 + (items.take i).flatten.length)
  rw [Nat.mod_eq_of_lt (h.offsets i hi), ← hread] at hvalue
  rw [offsetAt, varBlockGetOffset, offsetsAreSmall_blockBytes h]
  cases small with
  | true => exact hvalue
  | false => exact hvalue

/-- The zeros behind the items are what stands between them and the offsets. -/
theorem readAt_itemPad : readAt (8 + items.flatten.length)
    (8 + (items.flatten.length + 1) / 2 * 2 - (8 + items.flatten.length)) (blockBytes small items) =
      evenPad items.flatten.length := by
  rw [blockBytes_eq h, blockBody, ← List.append_assoc, ← List.append_assoc, ← List.append_assoc,
    List.append_assoc _ (tableBytes _ _)]
  refine readAt_append _ _ _ ?_ ?_
  · rw [List.length_append, length_headerBytes]
  · rw [length_evenPad]
    omega

theorem readAt_offsetPad :
    readAt (8 + (items.flatten.length + 1) / 2 * 2 + items.length * offsetWidth small)
      ((items.length * offsetWidth small + 1) / 2 * 2 - items.length * offsetWidth small)
      (blockBytes small items) = evenPad (items.length * offsetWidth small) := by
  rw [blockBytes_eq h, blockBody, ← List.append_assoc]
  have hpre : 8 + (items.flatten.length + 1) / 2 * 2 + items.length * offsetWidth small =
      (headerBytes (headWord small + items.flatten.length) items.length ++
        (items.flatten ++ evenPad items.flatten.length ++
          tableBytes (offsetWidth small) (offsetsOf 8 items))).length := by
    rw [List.length_append, List.length_append, List.length_append, length_headerBytes,
      length_evenPad, length_tableBytes, length_offsetsOf, Nat.mul_comm (offsetWidth small)]
    omega
  have hread := readAt_append _ (evenPad (items.length * offsetWidth small)) [] hpre
    (length_evenPad _).symm
  rwa [List.append_nil] at hread

theorem varBlockIsValid_blockBytes : varBlockIsValid (blockBytes small items) = .ok := by
  have hheader : varBlockHeaderIsValid (blockBytes small items) = .ok := by
    rw [blockBytes_eq h, varBlockHeaderIsValid_headerBytes small h.sum h.count]
  have hlen := length_blockBytes small items
  rw [blockLen] at hlen
  rw [varBlockIsValid]
  simp only [hheader, ne_eq, not_true_eq_false, if_false, itemLenSum_blockBytes h,
    offsetToOffsetArray_blockBytes h, itemCount_blockBytes h, multiplier_blockBytes h,
    varBlockHeaderLen_eq, readAt_itemPad h, readAt_offsetPad h]
  rw [if_neg (by omega), if_neg (by omega), if_neg (by rw [any_evenPad]; exact Bool.false_ne_true)]
  by_cases hzero : items.length = 0
  · rw [if_pos hzero, if_neg (by rw [hlen, hzero]; omega)]
  · have hfirst : varBlockGetOffset (blockBytes small items)
        (8 + (items.flatten.length + 1) / 2 * 2) 0 = 8 := by
      rw [← offsetToOffsetArray_blockBytes h]
      exact offsetAt_blockBytes h (Nat.pos_of_ne_zero hzero)
    rw [if_neg hzero, if_neg (by omega), hfirst, if_neg (not_not.mpr rfl),
      ← varBlockHeaderLen_eq, checkOffsets_header]
    simp only [not_true_eq_false, if_false]
    rw [if_neg (by rw [any_evenPad]; exact Bool.false_ne_true)]

/-- The place and the length of an item. -/
theorem getItemPtr_blockBytes (hi : i < items.length) :
    (VarBlockReader.init (blockBytes small items)).getItemPtr i =
      (((8 + (items.take i).flatten.length : ℕ) : ℤ), (items[i].length : ℤ)) := by
  have hoffset : ∀ j < items.length, (VarBlockReader.init (blockBytes small items)).getOffset j =
      8 + (items.take j).flatten.length := fun j hj => offsetAt_blockBytes h hj
  have hsucc := length_flatten_take_succ hi
  have hbuffer : (VarBlockReader.init (blockBytes small items)).buffer =
    blockBytes small items := rfl
  rw [VarBlockReader.getItemPtr, VarBlockReader.getItemLen, hoffset i hi]
  simp only [hbuffer, itemCount_blockBytes h, itemLenSum_blockBytes h, varBlockHeaderLen_eq]
  split_ifs with hlast
  · rw [hoffset (i + 1) hlast]
    exact Prod.ext rfl (by dsimp only; omega)
  · rw [List.take_of_length_le (by omega)] at hsucc
    exact Prod.ext rfl (by dsimp only; omega)

theorem itemAt_blockBytes (hi : i < items.length) :
    itemAt (blockBytes small items)
      ((VarBlockReader.init (blockBytes small items)).getItemPtr i) = items[i] := by
  have hsplit : blockBytes small items =
      headerBytes (headWord small + items.flatten.length) items.length ++ (items.take i).flatten ++
        items[i] ++ ((items.drop (i + 1)).flatten ++ (evenPad items.flatten.length ++
          tableBytes (offsetWidth small) (offsetsOf 8 items) ++
            evenPad (items.length * offsetWidth small))) := by
    rw [blockBytes_eq h, blockBody, List.append_assoc items.flatten,
      List.append_assoc items.flatten]
    conv_lhs =>
      enter [2, 1]
      rw [flatten_split items hi]
    simp only [List.append_assoc]
  rw [getItemPtr_blockBytes h hi, itemAt, Int.toNat_natCast, Int.toNat_natCast, hsplit]
  exact readAt_append _ _ _ (by rw [List.length_append, length_headerBytes]) rfl

/-- One call more than there are items returns no more. -/
theorem getItemPtrs_blockBytes :
    ((VarBlockReader.init (blockBytes small items)).getItemPtrs (items.length + 1)).map
      (itemAt (blockBytes small items)) = items := by
  have hfirst : 0 < itemCount (blockBytes small items) →
      offsetAt (blockBytes small items) 0 = varBlockHeaderLen := by
    rw [itemCount_blockBytes h]
    exact fun hpos => offsetAt_blockBytes h hpos
  have hcalls : itemCount (blockBytes small items) ≤
      (VarBlockReader.init (blockBytes small items)).nextIndex + (items.length + 1) := by
    rw [itemCount_blockBytes h]
    omega
  rw [(atItem_init hfirst).getItemPtrs_eq hcalls, itemCount_blockBytes h, List.map_map]
  refine List.ext_getElem ?_ fun i hi hi' => ?_
  · rw [List.length_map, List.length_range', VarBlockReader.init, Nat.sub_zero]
  · rw [List.getElem_map, List.getElem_range']
    simp only [Function.comp_apply, VarBlockReader.init, Nat.zero_add, Nat.one_mul]
    exact itemAt_blockBytes h hi'

end

end Hdb.AppendOnly
