import Hdb.AppendOnly.BufferedRead
import Hdb.Lib.Buffers

/-!
# VarBlocks

A VarBlock has a header, items of any length, and an array of the offsets of the items. The maker
gives its caller the place for the next item, and keeps the offsets in a scratch space. As long as
an item starts in the first 63 KB, an offset has two bytes; then the array in the scratch space is
widened in place to offsets of three bytes. The array follows the items when the block is finished.

**Bytes.** A block is the bytes of a buffer, with numbers in little-endian order. A pointer into the
buffer is its distance from the start.

**Integers.** A sum of lengths is an `int32` and wraps (`castInt32`).
-/

namespace Hdb.AppendOnly

/-! ## The header -/

def varBlockHeaderLen : ℕ := 8

namespace VarBlockHeader

def bytes03 (buffer : List UInt8) : ℕ := ofLittleEndian (readAt 0 4 buffer)

def bytes47 (buffer : List UInt8) : ℕ := ofLittleEndian (readAt 4 4 buffer)

def offsetsAreSmall (buffer : List UInt8) : Bool := bytes03 buffer >>> 31 ≠ 0

def reserved (buffer : List UInt8) : ℕ := (bytes03 buffer &&& 0x7C000000) >>> 26

def version (buffer : List UInt8) : ℕ := (bytes03 buffer &&& 0x03000000) >>> 24

def itemLenSum (buffer : List UInt8) : ℕ := bytes03 buffer &&& 0x00FFFFFF

def moreReserved (buffer : List UInt8) : ℕ := (bytes47 buffer &&& 0xFF000000) >>> 24

def itemCount (buffer : List UInt8) : ℕ := bytes47 buffer &&& 0x00FFFFFF

def setBytes03 (w : ℕ) (buffer : List UInt8) : List UInt8 := writeAt 0 (toLittleEndian 4 w) buffer

def setBytes47 (w : ℕ) (buffer : List UInt8) : List UInt8 := writeAt 4 (toLittleEndian 4 w) buffer

def setOffsetsAreSmall (e : Bool) (buffer : List UInt8) : List UInt8 :=
  setBytes03 (if e then bytes03 buffer ||| 0x80000000 else bytes03 buffer &&& 0x7FFFFFFF) buffer

def setVersion (e : ℕ) (buffer : List UInt8) : List UInt8 :=
  setBytes03 (bytes03 buffer &&& 0xFCFFFFFF ||| 0x03000000 &&& e <<< 24) buffer

def setItemLenSum (e : ℕ) (buffer : List UInt8) : List UInt8 :=
  setBytes03 (bytes03 buffer &&& 0xFF000000 ||| 0x00FFFFFF &&& e) buffer

def setItemCount (e : ℕ) (buffer : List UInt8) : List UInt8 :=
  setBytes47 (bytes47 buffer &&& 0xFF000000 ||| 0x00FFFFFF &&& e) buffer

/-- `memset` to zero, the version and the small offsets. -/
def init (buffer : List UInt8) : List UInt8 :=
  setOffsetsAreSmall true (setVersion 1 (writeAt 0 (List.replicate varBlockHeaderLen 0) buffer))

/-- The size of an offset. -/
def multiplier (buffer : List UInt8) : ℕ := if offsetsAreSmall buffer then 2 else 3

/-- The offset array starts on an even boundary. -/
def offsetToOffsetArray (buffer : List UInt8) : ℕ :=
  varBlockHeaderLen + (itemLenSum buffer + 1) / 2 * 2

end VarBlockHeader

open VarBlockHeader

/-! ## The maker -/

structure VarBlockMaker where
  buffer : List UInt8
  maxBufferLen : ℕ
  currentItemLenSum : ℤ
  tempScratchSpace : List UInt8
  /-- `nextItemPtr`. -/
  nextItemOffset : ℕ
  currentItemCount : ℕ
  maxItemCount : ℕ

namespace VarBlockMaker

def init (buffer : List UInt8) (maxBufferLen : ℕ) (tempScratchSpace : List UInt8) :
    VarBlockMaker where
  buffer := VarBlockHeader.init buffer
  maxBufferLen
  currentItemLenSum := 0
  tempScratchSpace
  nextItemOffset := varBlockHeaderLen
  currentItemCount := 0
  maxItemCount := tempScratchSpace.length / 2

/-- `((x + 1) / 2) * 2` on an `int32`. -/
def roundUpEven (x : ℤ) : ℤ := castInt32 ((castInt32 (x + 1)).tdiv 2 * 2)

/-- `newTotalLen`. -/
def totalLen (itemLenSum offsetArrayLen : ℤ) : ℤ :=
  castInt32 (varBlockHeaderLen + roundUpEven itemLenSum + offsetArrayLen)

/-- The loop that moves the offsets: `r` is the index of the last one. -/
def widen : ℕ → List UInt8 → List UInt8
  | 0, space => writeAt 0 (toLittleEndian 3 (ofLittleEndian (readAt 0 2 space))) space
  | r + 1, space =>
    widen r (writeAt ((r + 1) * 3)
      (toLittleEndian 3 (ofLittleEndian (readAt ((r + 1) * 2) 2 space))) space)

/-- The place for the next item; `none` is `NULL`, and the maker is as before. -/
def getNextItemPtr (itemLen : ℕ) (maker : VarBlockMaker) : Option (ℕ × VarBlockMaker) :=
  let currentItemCount := maker.currentItemCount
  if currentItemCount ≥ maker.maxItemCount then none
  else
    let nextItemOffset := maker.nextItemOffset
    let newItemLenSum := castInt32 (maker.currentItemLenSum + itemLen)
    let offsetArrayLenRounded := roundUpEven (castInt32 ((currentItemCount + 1) * 3))
    let accept (maker : VarBlockMaker) : Option (ℕ × VarBlockMaker) :=
      some (nextItemOffset, { maker with
        nextItemOffset := nextItemOffset + itemLen
        currentItemCount := currentItemCount + 1
        currentItemLenSum := newItemLenSum })
    if offsetsAreSmall maker.buffer then
      if nextItemOffset > 63 * 1024 then
        -- Try out large 3-byte offsets.
        if totalLen newItemLenSum offsetArrayLenRounded > maker.maxBufferLen then none
        else if currentItemCount ≥ maker.tempScratchSpace.length / 3 then none
        else
          accept { maker with
            buffer := setOffsetsAreSmall false maker.buffer
            maxItemCount := maker.tempScratchSpace.length / 3
            tempScratchSpace := writeAt (currentItemCount * 3) (toLittleEndian 3 nextItemOffset)
              (widen currentItemCount maker.tempScratchSpace) }
      else if totalLen newItemLenSum (currentItemCount * 2 + 2) > maker.maxBufferLen then none
      else
        accept { maker with
          tempScratchSpace := writeAt (currentItemCount * 2) (toLittleEndian 2 nextItemOffset)
            maker.tempScratchSpace }
    else if totalLen newItemLenSum offsetArrayLenRounded > maker.maxBufferLen then none
    else
      accept { maker with
        tempScratchSpace := writeAt (currentItemCount * 3) (toLittleEndian 3 nextItemOffset)
          maker.tempScratchSpace }

/-- The caller fills in an item. -/
def fill (place : ℕ) (item : List UInt8) (maker : VarBlockMaker) : VarBlockMaker :=
  { maker with buffer := writeAt place item maker.buffer }

/-- `VarBlockMakerFinish`: the length of the block, and the buffer. -/
def finish (maker : VarBlockMaker) : ℕ × List UInt8 :=
  let itemCount := maker.currentItemCount
  let itemLenSum := maker.currentItemLenSum.toNat
  let offsetToOffsetArray := varBlockHeaderLen + (roundUpEven maker.currentItemLenSum).toNat
  let multiplier := multiplier maker.buffer
  let buffer := writeAt offsetToOffsetArray (maker.tempScratchSpace.take (itemCount * multiplier))
    maker.buffer
  let buffer := writeAt (varBlockHeaderLen + itemLenSum)
    (List.replicate (offsetToOffsetArray - (varBlockHeaderLen + itemLenSum)) 0) buffer
  let buffer := setItemCount itemCount (setItemLenSum itemLenSum buffer)
  let offsetArrayLen := itemCount * multiplier
  let offsetArrayLenRounded := (offsetArrayLen + 1) / 2 * 2
  let buffer := writeAt (offsetToOffsetArray + offsetArrayLen)
    (List.replicate (offsetArrayLenRounded - offsetArrayLen) 0) buffer
  (offsetToOffsetArray + offsetArrayLenRounded, buffer)

/-- One item after the other: the maker at the end, and the items that were accepted. -/
def fillAll : List (List UInt8) → VarBlockMaker → VarBlockMaker × List (List UInt8)
  | [], maker => (maker, [])
  | item :: items, maker =>
    match maker.getNextItemPtr item.length with
    | none => fillAll items maker
    | some (place, maker) =>
      let r := fillAll items (maker.fill place item)
      (r.1, item :: r.2)

end VarBlockMaker

/-! ## The validator -/

inductive VarBlockCheckError
  | ok
  | badVersion
  | reservedNot0
  | moreReservedNot0
  | itemSumLenBad1
  | itemSumLenBad2
  | zeroPadBad1
  | zeroPadBad2
  | itemCountBad1
  | itemCountBad2
  | offsetBad1
  | offsetBad2
  | offsetBad3
  deriving DecidableEq

/-- `VarBlockGetOffset`. -/
def varBlockGetOffset (buffer : List UInt8) (offsetToOffsetArray itemIndex : ℕ) : ℕ :=
  if offsetsAreSmall buffer then
    ofLittleEndian (readAt (offsetToOffsetArray + 2 * itemIndex) 2 buffer)
  else ofLittleEndian (readAt (offsetToOffsetArray + 3 * itemIndex) 3 buffer)

def varBlockHeaderIsValid (buffer : List UInt8) : VarBlockCheckError :=
  if version buffer ≠ 1 then .badVersion
  else if reserved buffer ≠ 0 then .reservedNot0
  else if moreReserved buffer ≠ 0 then .moreReservedNot0
  else .ok

/-- The loop over the offsets behind the first one. -/
def checkOffsets (itemLenSum offset : ℕ) : (items : ℕ) → VarBlockCheckError
  | 0 => .ok
  | items + 1 =>
    -- `offset` is not read again.
    let prevOffset := offset
    if offset < prevOffset then .offsetBad2
    else if offset > itemLenSum + varBlockHeaderLen then .offsetBad3
    else checkOffsets itemLenSum offset items

/-- The buffer is the block, and its length `bufferLen`. -/
def varBlockIsValid (buffer : List UInt8) : VarBlockCheckError :=
  let bufferLen := buffer.length
  if varBlockHeaderIsValid buffer ≠ .ok then varBlockHeaderIsValid buffer
  else
    let itemLenSum := itemLenSum buffer
    let offsetToOffsetArray := offsetToOffsetArray buffer
    let itemCount := itemCount buffer
    if itemLenSum ≥ bufferLen then .itemSumLenBad1
    else if offsetToOffsetArray > bufferLen then .itemSumLenBad2
    else if (readAt (varBlockHeaderLen + itemLenSum)
        (offsetToOffsetArray - (varBlockHeaderLen + itemLenSum)) buffer).any (· ≠ 0)
        then .zeroPadBad1
    else if itemCount = 0 then
      if offsetToOffsetArray ≠ bufferLen then .itemCountBad1 else .ok
    else
      let offsetArrayLen := itemCount * multiplier buffer
      let offsetArrayLenRounded := (offsetArrayLen + 1) / 2 * 2
      if bufferLen - offsetToOffsetArray ≠ offsetArrayLenRounded then .itemCountBad2
      else
        let offset := varBlockGetOffset buffer offsetToOffsetArray 0
        if offset ≠ varBlockHeaderLen then .offsetBad1
        else if checkOffsets itemLenSum offset (itemCount - 1) ≠ .ok then
          checkOffsets itemLenSum offset (itemCount - 1)
        else if (readAt (offsetToOffsetArray + offsetArrayLen)
            (offsetArrayLenRounded - offsetArrayLen) buffer).any (· ≠ 0) then .zeroPadBad2
        else .ok

def varBlockLenFromHeader (buffer : List UInt8) : ℕ :=
  offsetToOffsetArray buffer + (itemCount buffer * multiplier buffer + 1) / 2 * 2

/-! ## The reader -/

structure VarBlockReader where
  buffer : List UInt8
  nextIndex : ℕ
  /-- `nextItemPtr`. -/
  nextItemOffset : ℤ
  offsetToOffsetArray : ℕ

namespace VarBlockReader

def init (buffer : List UInt8) : VarBlockReader where
  buffer
  nextIndex := 0
  nextItemOffset := varBlockHeaderLen
  offsetToOffsetArray := VarBlockHeader.offsetToOffsetArray buffer

def getOffset (itemIndex : ℕ) (reader : VarBlockReader) : ℕ :=
  varBlockGetOffset reader.buffer reader.offsetToOffsetArray itemIndex

def getItemLen (itemIndex : ℕ) (reader : VarBlockReader) : ℤ :=
  if itemIndex + 1 < itemCount reader.buffer then
    (reader.getOffset (itemIndex + 1) : ℤ) - reader.getOffset itemIndex
  else varBlockHeaderLen + itemLenSum reader.buffer - reader.getOffset itemIndex

/-- `VarBlockReaderGetItemPtr`: the place and the length of an item. -/
def getItemPtr (itemIndex : ℕ) (reader : VarBlockReader) : ℤ × ℤ :=
  (reader.getOffset itemIndex, reader.getItemLen itemIndex)

def getNextItemPtr (reader : VarBlockReader) : Option ((ℤ × ℤ) × VarBlockReader) :=
  if reader.nextIndex ≥ itemCount reader.buffer then none
  else
    let itemLen := reader.getItemLen reader.nextIndex
    some ((reader.nextItemOffset, itemLen), { reader with
      nextItemOffset := reader.nextItemOffset + itemLen
      nextIndex := reader.nextIndex + 1 })

/-- What a number of calls return. -/
def getItemPtrs : (calls : ℕ) → VarBlockReader → List (ℤ × ℤ)
  | 0, _ => []
  | calls + 1, reader =>
    match reader.getNextItemPtr with
    | none => []
    | some (r, reader) => r :: getItemPtrs calls reader

end VarBlockReader

/-- The bytes of an item. -/
def itemAt (buffer : List UInt8) (r : ℤ × ℤ) : List UInt8 := readAt r.1.toNat r.2.toNat buffer

end Hdb.AppendOnly
