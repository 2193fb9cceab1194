import Hdb.DatumStream.BitMapWrite
import Hdb.MemTuple.Binding

/-!
# Writing a dense block of a datum stream

`DatumStreamBlockWrite_Put` for the dense versions. A datum is written as a NULL, as a repeat of the
one before it, as a delta to it, or as a physical item. The NULL bit-map has no bits for repeats,
the compress and the delta bit-maps have none for repeats and NULLs, and each of the three is
started by the first bit that is on.

The model has the words of a little-endian machine, and a `char` that is signed. The arrays of
repeat counts and deltas are lists, which grow as they are written; fresh memory of a bit-map is
zero, and each byte is zeroed again before its first bit is written.
-/

namespace Hdb.DatumStream

open MemTuple (AttAlign attAlignNominal)

structure DatumStreamTypeInfo where
  datumlen : ℤ
  typid : ℕ
  align : AttAlign
  byval : Bool

/-- A word, and what it points to: the bytes of a type of fixed length, the characters of a C
string, or the data of a varlena as `varattrib_untoast_ptr_len` finds them, with the kind of its
header. -/
structure Datum where
  word : UInt64
  data : List UInt8
  isShort : Bool

/-- What `rle_last_item` points to. -/
inductive LastItem
  | datumBuffer (offset : ℕ)
  | compareItem
  deriving DecidableEq

inductive PutError
  | lastItemSize
  | strangeLength
  | unexpectedLength
  | deltaLength
  | deltaMaintainLength
  deriving DecidableEq

inductive DeltaCompressionStatus
  | ok
  | notApplied
  | error
  deriving DecidableEq

structure DatumStreamBlockWrite where
  typeInfo : DatumStreamTypeInfo
  rleWantCompression : Bool
  deltaWantCompression : Bool
  initialMaxDatumPerBlock : ℕ
  maxDatumPerBlock : ℕ
  maxDataBlockSize : ℕ
  nth : ℕ
  physicalDatumCount : ℕ
  hasNull : Bool
  nullBitmap : DatumStreamBitMapWrite
  /-- The bytes up to `datump`. -/
  datumBuffer : List UInt8
  alwaysNullBitmapCount : ℕ
  rleHasCompression : Bool
  rleLastItem : Option LastItem
  rleLastItemSize : ℕ
  rleLastItemIsRepeated : Bool
  rleTotalRepeatItemsWritten : ℕ
  rleCompressBitmap : DatumStreamBitMapWrite
  rleRepeatcounts : List ℕ
  rleRepeatcountsCurrentSize : ℕ
  deltaHasCompression : Bool
  notFirstDatum : Bool
  compareItem : UInt64
  deltaBitmap : DatumStreamBitMapWrite
  deltas : List (ℤ × Bool)
  deltasCurrentSize : ℕ

def MAXREPEAT_COUNT : ℕ := 0x3FFFFFFF

def MAX_DELTA_SUPPORTED_DELTA_COMPRESSION : ℤ := 0x1FFFFFFF

def datumStreamInt32CompressSize (value : ℕ) : ℕ :=
  if value ≤ 0x3F then 1 else if value ≤ 0x3FFF then 2 else if value ≤ 0x3FFFFF then 3 else 4

def datumStreamInt32CompressReserved3Size (value : ℤ) : ℕ :=
  if value ≤ 0x1F then 1 else if value ≤ 0x1FFF then 2 else if value ≤ 0x1FFFFF then 3 else 4

/-- The low bytes of a word, as they are in memory. -/
def wordBytes (w : UInt64) (len : ℕ) : List UInt8 :=
  (List.range len).map fun i => (w >>> UInt64.ofNat (8 * i)).toUInt8

def maxAlign (len : ℕ) : ℕ := (len + 7) / 8 * 8

namespace DatumStreamBlockWrite

/-- The bytes that the last item has. -/
def lastItemBytes (dsw : DatumStreamBlockWrite) : List UInt8 :=
  match dsw.rleLastItem with
  | none => []
  | some (.datumBuffer offset) => (dsw.datumBuffer.drop offset).take dsw.rleLastItemSize
  | some .compareItem => wordBytes dsw.compareItem dsw.rleLastItemSize

/-! ## Space in the bit-maps -/

def makeNullBitMapSpace (dsw : DatumStreamBlockWrite) : DatumStreamBlockWrite :=
  let newNullBitMapSize :=
    if ¬ dsw.hasNull then datumStreamBitMapSize (dsw.alwaysNullBitmapCount + 1)
    else dsw.nullBitmap.nextSize
  let nullBitmap := dsw.nullBitmap.grow newNullBitMapSize dsw.initialMaxDatumPerBlock
  if ¬ dsw.hasNull then
    { dsw with hasNull := true, nullBitmap := nullBitmap.zeroFill dsw.alwaysNullBitmapCount }
  else { dsw with nullBitmap }

def makeCompressBitMapSpace (dsw : DatumStreamBlockWrite) : DatumStreamBlockWrite :=
  let deltaBitMapOnCount := if dsw.deltaHasCompression then dsw.deltaBitmap.bitOnCount else 0
  let newCompressBitMapSize :=
    if ¬ dsw.rleHasCompression then
      datumStreamBitMapSize (dsw.physicalDatumCount + deltaBitMapOnCount)
    else dsw.rleCompressBitmap.nextSize
  let rleCompressBitmap :=
    dsw.rleCompressBitmap.grow newCompressBitMapSize dsw.initialMaxDatumPerBlock
  if ¬ dsw.rleHasCompression then
    { dsw with
      rleCompressBitmap :=
        rleCompressBitmap.zeroFill ((dsw.physicalDatumCount : ℤ) - 1 + deltaBitMapOnCount) }
  else { dsw with rleCompressBitmap }

def makeDeltaCompressBitMapSpace (dsw : DatumStreamBlockWrite) : DatumStreamBlockWrite :=
  let newCompressBitMapSize :=
    if ¬ dsw.deltaHasCompression then datumStreamBitMapSize dsw.physicalDatumCount
    else dsw.deltaBitmap.nextSize
  let deltaBitmap := dsw.deltaBitmap.grow newCompressBitMapSize dsw.initialMaxDatumPerBlock
  if ¬ dsw.deltaHasCompression then
    { dsw with deltaBitmap := deltaBitmap.zeroFill dsw.physicalDatumCount }
  else { dsw with deltaBitmap }

/-! ## Space in the block -/

/-- The sizes of the headers `DatumStreamBlock_Dense`, `DatumStreamBlock_Rle_Extension` and
`DatumStreamBlock_Delta_Extension`. -/
def denseHeaderSize : ℕ := 16

def rleExtensionSize : ℕ := 16

def deltaExtensionSize : ℕ := 12

/-- The header size and the RLE size that are added for the compression so far. -/
def denseRleSpace (dsw : DatumStreamBlockWrite) (null : Bool) : ℕ × ℕ :=
  if ¬ dsw.rleHasCompression then (0, 0)
  else
    (rleExtensionSize,
      (if null then dsw.rleCompressBitmap.size else dsw.rleCompressBitmap.nextSize) +
        dsw.rleRepeatcountsCurrentSize +
        if dsw.rleLastItemIsRepeated then
          datumStreamInt32CompressSize (dsw.rleRepeatcounts.getLastD 0)
        else 0)

/-- The header size and the delta size for the deltas so far and one more bit. -/
def denseDeltaSpace (dsw : DatumStreamBlockWrite) : ℕ × ℕ :=
  if dsw.deltaHasCompression then
    (deltaExtensionSize, dsw.deltaBitmap.nextSize + dsw.deltasCurrentSize)
  else (0, 0)

/-- The total size stays in the block. -/
def fits (dsw : DatumStreamBlockWrite) (metaSize sz : ℕ) : Bool :=
  maxAlign metaSize + dsw.datumBuffer.length + sz ≤ dsw.maxDataBlockSize

def denseHasSpaceNull (dsw : DatumStreamBlockWrite) : Bool :=
  if dsw.nth + 1 ≥ dsw.maxDatumPerBlock then false
  else
    let nullSize := datumStreamBitMapSize (dsw.alwaysNullBitmapCount + 1)
    let rle := dsw.denseRleSpace true
    let delta := dsw.denseDeltaSpace
    dsw.fits (denseHeaderSize + rle.1 + delta.1 + nullSize + rle.2 + delta.2) 0

def denseHasSpaceRepeat (dsw : DatumStreamBlockWrite) (newRepeat : Bool) : Bool :=
  if dsw.nth + 1 ≥ dsw.maxDatumPerBlock then false
  else
    let nullSize := if dsw.hasNull then datumStreamBitMapSize dsw.alwaysNullBitmapCount else 0
    let delta := dsw.denseDeltaSpace
    let totalDatumCount :=
      dsw.physicalDatumCount + if dsw.deltaHasCompression then dsw.deltaBitmap.bitOnCount else 0
    let rleSize :=
      (if newRepeat then datumStreamBitMapSize (totalDatumCount + 1)
        else datumStreamBitMapSize totalDatumCount) + dsw.rleRepeatcountsCurrentSize + 4
    dsw.fits (denseHeaderSize + delta.1 + rleExtensionSize + nullSize + rleSize + delta.2) 0

def denseHasSpaceDelta (dsw : DatumStreamBlockWrite) : Bool :=
  if dsw.nth + 1 ≥ dsw.maxDatumPerBlock then false
  else
    let nullSize :=
      if dsw.hasNull then datumStreamBitMapSize (dsw.alwaysNullBitmapCount + 1) else 0
    let rle := dsw.denseRleSpace false
    let totalDatumCount :=
      dsw.physicalDatumCount + if dsw.deltaHasCompression then dsw.deltaBitmap.bitOnCount else 0
    let deltaSize := datumStreamBitMapSize (totalDatumCount + 1) + dsw.deltasCurrentSize + 4
    dsw.fits (denseHeaderSize + rle.1 + deltaExtensionSize + nullSize + rle.2 + deltaSize) 0

def denseHasSpaceItem (dsw : DatumStreamBlockWrite) (sz : ℕ) : Bool :=
  if dsw.nth + 1 ≥ dsw.maxDatumPerBlock then false
  else
    let nullSize :=
      if dsw.hasNull then datumStreamBitMapSize (dsw.alwaysNullBitmapCount + 1) else 0
    let rle := dsw.denseRleSpace false
    let delta := dsw.denseDeltaSpace
    dsw.fits (denseHeaderSize + rle.1 + delta.1 + nullSize + rle.2 + delta.2) sz

/-! ## One more logical row -/

def rleFinalizeRepeatCountSize (dsw : DatumStreamBlockWrite) : DatumStreamBlockWrite :=
  { dsw with
    rleLastItemIsRepeated := false
    rleLastItem := none
    rleLastItemSize := 0
    rleRepeatcountsCurrentSize :=
      dsw.rleRepeatcountsCurrentSize + datumStreamInt32CompressSize
        (dsw.rleRepeatcounts.getLastD 0) }

def finalizeRepeated (dsw : DatumStreamBlockWrite) : DatumStreamBlockWrite :=
  if dsw.rleLastItemIsRepeated then dsw.rleFinalizeRepeatCountSize else dsw

def denseIncrNull (dsw : DatumStreamBlockWrite) : DatumStreamBlockWrite :=
  let dsw :=
    { dsw with
      nullBitmap := dsw.nullBitmap.addBit true
      alwaysNullBitmapCount := dsw.alwaysNullBitmapCount + 1 }
  let dsw :=
    if dsw.rleWantCompression then
      { dsw.finalizeRepeated with rleLastItem := none, rleLastItemSize := 0 }
    else dsw
  { dsw with nth := dsw.nth + 1 }

/-- The bit for an item that is not NULL, if there are NULLs. -/
def addNotNull (dsw : DatumStreamBlockWrite) : DatumStreamBlockWrite :=
  let dsw :=
    if dsw.hasNull then
      { dsw.makeNullBitMapSpace with
        nullBitmap := dsw.makeNullBitMapSpace.nullBitmap.addBit false }
    else dsw
  { dsw with alwaysNullBitmapCount := dsw.alwaysNullBitmapCount + 1 }

/-- The bit for an item that has not been repeated yet, if there are repeats. -/
def addNotRepeated (dsw : DatumStreamBlockWrite) : DatumStreamBlockWrite :=
  if dsw.rleHasCompression then
    { dsw.makeCompressBitMapSpace with
      rleCompressBitmap := dsw.makeCompressBitMapSpace.rleCompressBitmap.addBit false }
  else dsw

def denseIncrItem (dsw : DatumStreamBlockWrite) (rleLastItem : LastItem) (rleLastItemSize : ℕ) :
    DatumStreamBlockWrite :=
  let dsw := dsw.addNotNull
  let dsw :=
    if dsw.rleWantCompression then
      { dsw.finalizeRepeated with rleLastItem := some rleLastItem, rleLastItemSize }.addNotRepeated
    else dsw
  { dsw with nth := dsw.nth + 1, physicalDatumCount := dsw.physicalDatumCount + 1 }

def rleIncrRepeated (dsw : DatumStreamBlockWrite) : DatumStreamBlockWrite :=
  let dsw :=
    if ¬ dsw.rleLastItemIsRepeated then
      -- The first of the repeated items is counted here.
      let dsw :=
        { dsw with
          rleLastItemIsRepeated := true
          rleTotalRepeatItemsWritten := dsw.rleTotalRepeatItemsWritten + 1 }
      let dsw :=
        if ¬ dsw.rleHasCompression then
          { dsw.makeCompressBitMapSpace with
            rleCompressBitmap := dsw.makeCompressBitMapSpace.rleCompressBitmap.addBit true
            rleHasCompression := true }
        else { dsw with rleCompressBitmap := dsw.rleCompressBitmap.set }
      { dsw with rleRepeatcounts := dsw.rleRepeatcounts ++ [1] }
    else
      { dsw with
        rleRepeatcounts := dsw.rleRepeatcounts.dropLast ++ [dsw.rleRepeatcounts.getLastD 0 + 1] }
  { dsw with
    nth := dsw.nth + 1
    rleTotalRepeatItemsWritten := dsw.rleTotalRepeatItemsWritten + 1 }

def rleMarkRepeat (dsw : DatumStreamBlockWrite) : Bool × DatumStreamBlockWrite :=
  if dsw.denseHasSpaceRepeat (¬ dsw.rleLastItemIsRepeated) then (true, dsw.rleIncrRepeated)
  else (false, dsw)

/-! ## Deltas -/

/-- `compare_item` with the datum in it. -/
def setCompareItem (dsw : DatumStreamBlockWrite) (d : UInt64) : Option DatumStreamBlockWrite :=
  if dsw.typeInfo.datumlen = 4 then
    some { dsw with
      compareItem := (dsw.compareItem &&& 0xFFFFFFFF00000000) ||| d.toUInt32.toUInt64 }
  else if dsw.typeInfo.datumlen = 8 then some { dsw with compareItem := d }
  else none

def deltaMaintain (dsw : DatumStreamBlockWrite) (d : UInt64) :
    Except PutError DatumStreamBlockWrite :=
  if ¬ dsw.deltaWantCompression then .ok dsw
  else
    match dsw.setCompareItem d with
    | none => .error .deltaMaintainLength
    | some dsw =>
      if dsw.deltaHasCompression then
        .ok { dsw.makeDeltaCompressBitMapSpace with
          deltaBitmap := dsw.makeDeltaCompressBitMapSpace.deltaBitmap.addBit false }
      else .ok dsw

def deltaAdd (dsw : DatumStreamBlockWrite) (delta : ℤ) (sign : Bool) : DatumStreamBlockWrite :=
  let dsw := { dsw.makeDeltaCompressBitMapSpace with deltaHasCompression := true }
  let dsw := dsw.addNotNull.finalizeRepeated
  let dsw :=
    { dsw with
      rleLastItem := some .compareItem
      rleLastItemSize := dsw.typeInfo.datumlen.toNat }.addNotRepeated
  { dsw with
    deltaBitmap := dsw.deltaBitmap.addBit true
    deltas := dsw.deltas ++ [(delta, sign)]
    deltasCurrentSize := dsw.deltasCurrentSize + datumStreamInt32CompressReserved3Size delta
    nth := dsw.nth + 1 }

/-- The difference to the last datum, as an `int64`, and whether it is positive. -/
def deltaTo (dsw : DatumStreamBlockWrite) (d : UInt64) : Option (ℤ × Bool) :=
  if dsw.typeInfo.datumlen = 4 then
    if dsw.compareItem.toUInt32 ≤ d.toUInt32 then
      some ((d.toUInt32 - dsw.compareItem.toUInt32).toNat, true)
    else some ((dsw.compareItem.toUInt32 - d.toUInt32).toNat, false)
  else if dsw.typeInfo.datumlen = 8 then
    if dsw.compareItem ≤ d then some ((d - dsw.compareItem).toInt64.toInt, true)
    else some ((dsw.compareItem - d).toInt64.toInt, false)
  else none

def performDeltaCompression (dsw : DatumStreamBlockWrite) (d : UInt64) :
    Except PutError (DeltaCompressionStatus × DatumStreamBlockWrite) :=
  if ¬ dsw.deltaWantCompression then .ok (.notApplied, dsw)
  else if ¬ dsw.notFirstDatum then .ok (.notApplied, { dsw with notFirstDatum := true })
  else
    match dsw.deltaTo d with
    | none => .error .deltaLength
    | some (delta, positiveDelta) =>
      if delta < 0 ∨ delta > MAX_DELTA_SUPPORTED_DELTA_COMPRESSION then .ok (.notApplied, dsw)
      else if ¬ dsw.denseHasSpaceDelta then .ok (.error, dsw)
      else
        match dsw.setCompareItem d with
        | none => .error .deltaLength
        | some dsw => .ok (.ok, dsw.deltaAdd delta positiveDelta)

/-! ## Put -/

def valueTypeCouldShort (typid : ℕ) (d : Datum) : Bool :=
  d.isShort ∨ d.data.length + 1 ≤ 0x7F ∧ typid ≠ 22 ∧ typid ≠ 30 ∧ typid < 16384

/-- The header with which the datum is stored. -/
def storedHeader (typeInfo : DatumStreamTypeInfo) (d : Datum) : List UInt8 :=
  if typeInfo.datumlen = -2 then []
  else if valueTypeCouldShort typeInfo.typid d then [UInt8.ofNat (d.data.length + 1) ||| 0x80]
  else
    let size := (d.data.length + 4) &&& 0x3FFFFFFF
    [UInt8.ofNat (size >>> 24), UInt8.ofNat (size >>> 16), UInt8.ofNat (size >>> 8),
      UInt8.ofNat size]

/-- The data behind the header. -/
def storedData (typeInfo : DatumStreamTypeInfo) (d : Datum) : List UInt8 :=
  if typeInfo.datumlen = -2 then d.data ++ [0] else d.data

def attAlignZero (dsw : DatumStreamBlockWrite) : DatumStreamBlockWrite :=
  let offset := dsw.datumBuffer.length
  { dsw with
    datumBuffer :=
      dsw.datumBuffer ++ List.replicate (attAlignNominal offset dsw.typeInfo.align - offset) 0 }

/-- A new item of variable length. -/
def storeVariableLength (dsw : DatumStreamBlockWrite) (d : Datum) : ℤ × DatumStreamBlockWrite :=
  let header := storedHeader dsw.typeInfo d
  let data := storedData dsw.typeInfo d
  let sz := header.length + data.length
  -- Only a long header has to be aligned.
  let dsw := if header.length = 4 then dsw.attAlignZero else dsw
  if ¬ dsw.denseHasSpaceItem sz then (-sz, dsw)
  else
    let itemBegin := dsw.datumBuffer.length
    let dsw := { dsw with datumBuffer := dsw.datumBuffer ++ header ++ data }
    (sz, dsw.denseIncrItem (.datumBuffer (itemBegin + header.length)) data.length)

def putVariableLength (dsw : DatumStreamBlockWrite) (d : Datum) : ℤ × DatumStreamBlockWrite :=
  if dsw.rleLastItemIsRepeated ∧ dsw.rleRepeatcounts.getLastD 0 ≥ MAXREPEAT_COUNT then
    dsw.rleFinalizeRepeatCountSize.storeVariableLength d
  else if dsw.rleWantCompression ∧ dsw.rleLastItem.isSome then
    -- A C string is never compared.
    if dsw.typeInfo.datumlen = -1 ∧ d.data.length = dsw.rleLastItemSize ∧
        d.data = dsw.lastItemBytes then
      let r := dsw.rleMarkRepeat
      (if r.1 then 0 else -1, r.2)
    else dsw.finalizeRepeated.storeVariableLength d
  else dsw.storeVariableLength d

/-- The bytes of a datum of fixed length. -/
def fixedBytes (typeInfo : DatumStreamTypeInfo) (d : Datum) : List UInt8 :=
  if ¬ typeInfo.byval then d.data.take typeInfo.datumlen.toNat
  else wordBytes d.word typeInfo.datumlen.toNat

def lengthOk (typeInfo : DatumStreamTypeInfo) : Prop :=
  typeInfo.byval → typeInfo.datumlen = 1 ∨ typeInfo.datumlen = 2 ∨ typeInfo.datumlen = 4 ∨
    typeInfo.datumlen = 8

instance (typeInfo : DatumStreamTypeInfo) : Decidable (lengthOk typeInfo) :=
  inferInstanceAs (Decidable (_ → _))

/-- The comparison with the last item. A byte is compared with a `char`: one from 128 on is never
equal. -/
def isEqual (dsw : DatumStreamBlockWrite) (d : Datum) : Bool :=
  if dsw.typeInfo.byval ∧ dsw.typeInfo.datumlen = 1 then
    (dsw.lastItemBytes.map fun b => (b.toNat : ℤ)) == [d.word.toUInt8.toInt8.toInt]
  else dsw.lastItemBytes == fixedBytes dsw.typeInfo d

def putFixedLengthItem (dsw : DatumStreamBlockWrite) (d : Datum) :
    Except PutError DatumStreamBlockWrite :=
  if lengthOk dsw.typeInfo then
    .ok { dsw with datumBuffer := dsw.datumBuffer ++ fixedBytes dsw.typeInfo d }
  else .error .unexpectedLength

/-- A new item of fixed length. -/
def storeFixedLength (dsw : DatumStreamBlockWrite) (d : Datum) :
    Except PutError (ℤ × DatumStreamBlockWrite) :=
  if ¬ dsw.denseHasSpaceItem dsw.typeInfo.datumlen.toNat then .ok (-dsw.typeInfo.datumlen, dsw)
  else
    match dsw.putFixedLengthItem d with
    | .error e => .error e
    | .ok dsw' =>
      let dsw' :=
        dsw'.denseIncrItem (.datumBuffer dsw.datumBuffer.length) dsw.typeInfo.datumlen.toNat
      match dsw'.deltaMaintain d.word with
      | .error e => .error e
      | .ok dsw' => .ok (dsw.typeInfo.datumlen, dsw')

/-- An item of fixed length that is not a repeat. -/
def deltaOrStore (dsw : DatumStreamBlockWrite) (d : Datum) :
    Except PutError (ℤ × DatumStreamBlockWrite) :=
  match dsw.performDeltaCompression d.word with
  | .error e => .error e
  | .ok (.ok, dsw) => .ok (0, dsw)
  | .ok (.error, dsw) => .ok (-1, dsw)
  | .ok (.notApplied, dsw) => dsw.storeFixedLength d

def putFixedLength (dsw : DatumStreamBlockWrite) (d : Datum) :
    Except PutError (ℤ × DatumStreamBlockWrite) :=
  if dsw.rleLastItemIsRepeated ∧ dsw.rleRepeatcounts.getLastD 0 ≥ MAXREPEAT_COUNT then
    dsw.rleFinalizeRepeatCountSize.deltaOrStore d
  else if dsw.rleWantCompression ∧ dsw.rleLastItem.isSome then
    if (dsw.rleLastItemSize : ℤ) ≠ dsw.typeInfo.datumlen then .error .lastItemSize
    else if ¬ lengthOk dsw.typeInfo then .error .strangeLength
    else if dsw.isEqual d then
      let r := dsw.rleMarkRepeat
      .ok (if r.1 then 0 else -1, r.2)
    else dsw.finalizeRepeated.deltaOrStore d
  else dsw.deltaOrStore d

def putDense (dsw : DatumStreamBlockWrite) (d : Datum) (null : Bool) :
    Except PutError (ℤ × DatumStreamBlockWrite) :=
  if null then
    if ¬ dsw.denseHasSpaceNull then .ok (-1, dsw)
    else .ok (0, dsw.makeNullBitMapSpace.denseIncrNull)
  else if dsw.typeInfo.datumlen < 0 then .ok (dsw.putVariableLength d)
  else dsw.putFixedLength d

/-! ## The blocks of a writer -/

def getReady (dsw : DatumStreamBlockWrite) : DatumStreamBlockWrite :=
  let dsw :=
    { dsw with
      nth := 0
      physicalDatumCount := 0
      alwaysNullBitmapCount := 0
      hasNull := false
      nullBitmap := .init dsw.nullBitmap.buffer dsw.nullBitmap.bufferSize
      datumBuffer := [] }
  let dsw :=
    if dsw.rleWantCompression then
      { dsw with
        rleHasCompression := false
        rleLastItem := none
        rleLastItemSize := 0
        rleLastItemIsRepeated := false
        rleTotalRepeatItemsWritten := 0
        rleCompressBitmap := .init dsw.rleCompressBitmap.buffer dsw.rleCompressBitmap.bufferSize
        rleRepeatcounts := []
        rleRepeatcountsCurrentSize := 0 }
    else dsw
  if dsw.deltaWantCompression then
    { dsw with
      deltaHasCompression := false
      deltaBitmap := .init dsw.deltaBitmap.buffer dsw.deltaBitmap.bufferSize
      deltas := []
      deltasCurrentSize := 0
      notFirstDatum := false
      compareItem := 0 }
  else dsw

/-- What a writer is made with, and `Debug_datumstream_write_use_small_initial_buffers`. -/
structure InitArgs where
  typeInfo : DatumStreamTypeInfo
  rleWantCompression : Bool
  deltaWantCompression : Bool
  initialMaxDatumPerBlock : ℕ
  maxDatumPerBlock : ℕ
  maxDataBlockSize : ℕ
  useSmallInitialBuffers : Bool

def init (args : InitArgs) : DatumStreamBlockWrite :=
  let bitmapBufferSize (want : Bool) (small : ℕ) : ℕ :=
    if want then
      if args.useSmallInitialBuffers then small else (args.initialMaxDatumPerBlock + 1) / 8
    else 0
  getReady
    { typeInfo := args.typeInfo
      rleWantCompression := args.rleWantCompression
      deltaWantCompression := args.deltaWantCompression
      initialMaxDatumPerBlock := args.initialMaxDatumPerBlock
      maxDatumPerBlock := args.maxDatumPerBlock
      maxDataBlockSize := args.maxDataBlockSize
      nth := 0
      physicalDatumCount := 0
      hasNull := false
      nullBitmap := .init (fun _ => 0) (bitmapBufferSize true 64)
      datumBuffer := []
      alwaysNullBitmapCount := 0
      rleHasCompression := false
      rleLastItem := none
      rleLastItemSize := 0
      rleLastItemIsRepeated := false
      rleTotalRepeatItemsWritten := 0
      rleCompressBitmap := .init (fun _ => 0) (bitmapBufferSize args.rleWantCompression 8)
      rleRepeatcounts := []
      rleRepeatcountsCurrentSize := 0
      deltaHasCompression := false
      notFirstDatum := false
      compareItem := 0
      deltaBitmap := .init (fun _ => 0) (bitmapBufferSize args.deltaWantCompression 8)
      deltas := []
      deltasCurrentSize := 0 }

end DatumStreamBlockWrite

end Hdb.DatumStream
