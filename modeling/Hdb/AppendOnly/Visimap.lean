import Hdb.AppendOnly.BitmapCompression
import Hdb.Lib.Table

/-!
# The visibility map of an append-only table

A row of an append-only table is hidden by a bit in the visibility map. An entry of the map has the
bits of 32768 rows, and is a tuple of a relation with the compressed bitmap. A delete command has
one entry in memory. When it needs another one, the entry goes to a spill file, and the newest
version of each entry is found again through a hash table. At the end the newest versions go to the
relation.

**The relation** is a list of tuple versions; a tuple id is the place of a version. The command
finds tuples with the snapshot of its start.

**Partial functions.** `none` is an error that the code raises.
-/

namespace Hdb.AppendOnly

/-! ## Sets of bits -/

/-- A `Bitmapset` is its words; no words stand for `NULL`. -/
abbrev Bitmapset := List UInt32

def bmsIsMember (x : ℕ) (a : Bitmapset) : Bool :=
  if x / 32 ≥ a.length then false else (a[x / 32]?.getD 0).toNat.testBit (x % 32)

def bmsIsEmpty (a : Bitmapset) : Bool := a.all (· == 0)

def bmsCoversMember (a : Bitmapset) (x : ℕ) : Bool := x / 32 < a.length

def bmsResize (a : Bitmapset) (wc : ℕ) : Bitmapset :=
  if a.length ≥ wc then a else a ++ List.replicate (wc - a.length) 0

def bmsAddMember (a : Bitmapset) (x : ℕ) : Bitmapset :=
  (bmsResize a (x / 32 + 1)).modify (x / 32) (· ||| UInt32.ofNat (1 <<< (x % 32)))

/-! ## Entries -/

/-- The number of a row in its segment file, with the bits that it has room for. -/
structure AOTupleId where
  segmentFileNum : ℕ
  rowNum : ℕ
  segmentFileNum_lt : segmentFileNum < 2 ^ 7
  rowNum_lt : rowNum < 2 ^ 40
  deriving DecidableEq

structure VisimapKey where
  segno : ℕ
  firstRowNum : ℕ
  deriving DecidableEq

def visimapMaxRange : ℕ := 32768

/-- `AppendOnlyVisimapEntry_GetFirstRowNum`, with the segment file. -/
def AOTupleId.key (tupleId : AOTupleId) : VisimapKey :=
  ⟨tupleId.segmentFileNum, tupleId.rowNum / visimapMaxRange * visimapMaxRange⟩

structure VisimapEntry where
  /-- The defined part of the data buffer: length, version and compressed bitmap. -/
  data : List UInt8
  bitmap : Bitmapset
  /-- `segmentFileNum` and `firstRowNum`; `none` is -1 in both. -/
  key : Option VisimapKey
  dirty : Bool
  tupleTid : Option ℕ

inductive HTSUResult
  | mayBeUpdated
  | selfUpdated
  | updated
  deriving DecidableEq

/-- `VARSIZE`. -/
def varsize (data : List UInt8) : ℕ := ofBigEndian (data.take 4) % 2 ^ 30

namespace VisimapEntry

def init : VisimapEntry := ⟨[], [], none, false, none⟩

/-- `AppendOnlyVisimapEntry_New`. -/
def new (tupleId : AOTupleId) (entry : VisimapEntry) : VisimapEntry :=
  { entry with bitmap := [], key := some tupleId.key, tupleTid := none }

def coversTuple (tupleId : AOTupleId) (entry : VisimapEntry) : Bool :=
  match entry.key with
  | none => false
  | some key =>
    key.segno == tupleId.segmentFileNum &&
      (decide (key.firstRowNum ≤ tupleId.rowNum) &&
        decide (key.firstRowNum + visimapMaxRange > tupleId.rowNum))

/-- `AppendOnlyVisimapEntry_GetRownumOffset`. -/
def rownumOffset (tupleId : AOTupleId) (entry : VisimapEntry) : ℕ :=
  tupleId.rowNum - (entry.key.map VisimapKey.firstRowNum).getD 0

def isVisible (tupleId : AOTupleId) (entry : VisimapEntry) : Bool :=
  if bmsIsEmpty entry.bitmap then true
  else !bmsIsMember (entry.rownumOffset tupleId) entry.bitmap

/-- The size in words, as a power of two. -/
def minimalSizeToCover (offset : ℕ) : ℕ :=
  let minSize := offset / 32 + 1 - 1
  let minSize := minSize ||| minSize >>> 1
  let minSize := minSize ||| minSize >>> 2
  let minSize := minSize ||| minSize >>> 4
  let minSize := minSize ||| minSize >>> 8
  let minSize := minSize ||| minSize >>> 16
  minSize + 1

def hideTuple (tupleId : AOTupleId) (entry : VisimapEntry) : HTSUResult × VisimapEntry :=
  let offset := entry.rownumOffset tupleId
  let bitmap :=
    if bmsCoversMember entry.bitmap offset then entry.bitmap
    else bmsResize entry.bitmap (minimalSizeToCover offset)
  if !bmsIsMember offset bitmap then
    (.mayBeUpdated, { entry with bitmap := bmsAddMember bitmap offset, dirty := true })
  else if entry.dirty then (.selfUpdated, { entry with bitmap, dirty := true })
  else (.updated, { entry with bitmap, dirty := true })

/-- `AppendOnlyVisiMapEnty_ReadData`: the bitmap behind the length and the version. -/
def readData (data : List UInt8) : Option Bitmapset :=
  (bitmapDecompressInit (data.drop 8)).bind fun state =>
    if state.blockCount > 0 then bitmapDecompress state state.blockCount else some []

def writeData (entry : VisimapEntry) : Option VisimapEntry :=
  (bitmapCompress .default entry.bitmap (4 * entry.bitmap.length + 2)).map fun compressed =>
    { entry with
      data := toBigEndian 4 ((8 + compressed.length) % 2 ^ 30) ++ toLittleEndian 4 1 ++ compressed }

end VisimapEntry

/-! ## The relation -/

structure VisimapTuple where
  key : VisimapKey
  /-- `none` is the SQL value NULL. -/
  visimap : Option (List UInt8)

/-- The versions of the tuples, and whether they are live. -/
abbrev VisimapHeap := List (VisimapTuple × Bool)

/-- An update of a version that is not live is an error. -/
def simpleHeapUpdate (tid : ℕ) (tuple : VisimapTuple) (heap : VisimapHeap) : Option VisimapHeap :=
  match heap[tid]? with
  | some (old, true) => some (heap.set tid (old, false) ++ [(tuple, true)])
  | _ => none

def simpleHeapInsert (tuple : VisimapTuple) (heap : VisimapHeap) : VisimapHeap :=
  heap ++ [(tuple, true)]

/-- The index scan for a key. -/
def indexGetNext (key : VisimapKey) (snapshot : VisimapHeap) : Option (ℕ × VisimapTuple) :=
  (snapshot.zipIdx.find? fun t => t.1.2 && decide (t.1.1.key = key)).map fun t => (t.2, t.1.1)

/-- The bitmap of a tuple. -/
def VisimapTuple.bitmap (tuple : VisimapTuple) : Option Bitmapset :=
  match tuple.visimap with
  | none => some []
  | some data => VisimapEntry.readData data

/-- `AppendOnlyVisimapEntry_Copyout`, with the tuple id. -/
def VisimapEntry.copyout (tid : ℕ) (tuple : VisimapTuple) (entry : VisimapEntry) :
    Option VisimapEntry :=
  tuple.bitmap.map fun bitmap =>
    { entry with
      data := tuple.visimap.getD entry.data
      bitmap
      key := some tuple.key
      tupleTid := some tid }

/-- `AppendOnlyVisimapStore_Find`, and `AppendOnlyVisimapEntry_New` when there is no tuple. -/
def visimapFind (snapshot : VisimapHeap) (tupleId : AOTupleId) (entry : VisimapEntry) :
    Option VisimapEntry :=
  match indexGetNext tupleId.key snapshot with
  | some (tid, tuple) => entry.copyout tid tuple
  | none => some (entry.new tupleId)

/-- `AppendOnlyVisimap_IsVisible` by a command that has read nothing yet. -/
def visimapIsVisible (snapshot : VisimapHeap) (tupleId : AOTupleId) : Option Bool :=
  (visimapFind snapshot tupleId .init).map (VisimapEntry.isVisible tupleId)

/-- `AppendOnlyVisimapEntry_Write`. -/
def VisimapEntry.write (key : VisimapKey) (entry : VisimapEntry) :
    Option (VisimapTuple × VisimapEntry) :=
  if bmsIsEmpty entry.bitmap then some (⟨key, none⟩, { entry with dirty := false })
  else
    entry.writeData.map fun entry => (⟨key, some entry.data⟩, { entry with dirty := false })

/-! ## Deletion -/

structure VisimapDeleteData where
  key : VisimapKey
  /-- `none` is `INT64_MAX`, where no record of a file starts. -/
  workFileOffset : Option ℕ
  tupleTid : Option ℕ

structure VisimapDelete where
  snapshot : VisimapHeap
  heap : VisimapHeap
  entry : VisimapEntry
  dirtyEntryCache : List VisimapDeleteData
  workfile : List UInt8

namespace VisimapDelete

def init (heap : VisimapHeap) : VisimapDelete := ⟨heap, heap, .init, [], []⟩

/-- `AppendOnlyVisimap_Store`. -/
def store (del : VisimapDelete) : Option VisimapDelete :=
  del.entry.key.bind fun key =>
    (del.entry.write key).bind fun r =>
      (match r.2.tupleTid with
      | some tid => simpleHeapUpdate tid r.1 del.heap
      | none => some (simpleHeapInsert r.1 del.heap)).map fun heap =>
        { del with heap, entry := { r.2 with tupleTid := none } }

def keyBytes (key : VisimapKey) : List UInt8 :=
  toLittleEndian 8 key.segno ++ toLittleEndian 8 key.firstRowNum

def readKey (bytes : List UInt8) : VisimapKey :=
  ⟨ofLittleEndian (bytes.take 8), ofLittleEndian (bytes.drop 8)⟩

/-- `BufFileRead` at an offset. -/
def bufFileRead (file : List UInt8) (offset size : ℕ) : List UInt8 := (file.drop offset).take size

/-- The data of a record: the length first, and then the rest. -/
def readStashed (file : List UInt8) (offset : ℕ) : Option (List UInt8) :=
  let len := bufFileRead file offset 4
  if len.length ≠ 4 then none
  else
    let rest := bufFileRead file (offset + 4) (varsize len - 4)
    if rest.length ≠ varsize len - 4 then none else some (len ++ rest)

def rebuildEntry (data : List UInt8) (key : VisimapKey) (tid : Option ℕ) (entry : VisimapEntry) :
    Option VisimapEntry :=
  (VisimapEntry.readData data).map fun bitmap =>
    { entry with data, bitmap, key := some key, dirty := true, tupleTid := tid }

def unstash (key : VisimapKey) (deleteData : VisimapDeleteData) (del : VisimapDelete) :
    Option VisimapDelete :=
  deleteData.workFileOffset.bind fun offset =>
    if (bufFileRead del.workfile offset 16).length ≠ 16 then none
    else
      (readStashed del.workfile (offset + 16)).bind fun data =>
        (rebuildEntry data key deleteData.tupleTid del.entry).map fun entry => { del with entry }

def find (tupleId : AOTupleId) (del : VisimapDelete) : Option VisimapDelete :=
  match Table.find VisimapDeleteData.key tupleId.key del.dirtyEntryCache with
  | some deleteData => del.unstash tupleId.key deleteData
  | none => (visimapFind del.snapshot tupleId del.entry).map fun entry => { del with entry }

/-- The record goes to the end of the file. -/
def stash (del : VisimapDelete) : Option VisimapDelete :=
  del.entry.key.bind fun key =>
    del.entry.writeData.map fun entry =>
      let deleteData := ⟨key, some del.workfile.length, entry.tupleTid⟩
      { del with
        entry := { entry with dirty := false }
        workfile := del.workfile ++ keyBytes key ++ entry.data
        dirtyEntryCache :=
          deleteData :: Table.remove VisimapDeleteData.key key del.dirtyEntryCache }

def hide (tupleId : AOTupleId) (del : VisimapDelete) : Option (HTSUResult × VisimapDelete) :=
  (if del.entry.coversTuple tupleId then some del
    else (if del.entry.dirty then del.stash else some del).bind (find tupleId)).map fun del =>
      let r := del.entry.hideTuple tupleId
      (r.1, { del with entry := r.2 })

/-- The loop over the records of the spill file. -/
def writeBackLoop : (fuel : ℕ) → (currentOffset : ℕ) → VisimapDelete → Option VisimapDelete
  | 0, _, _ => none
  | fuel + 1, currentOffset, del =>
    let bytes := bufFileRead del.workfile currentOffset 16
    if bytes.length = 16 then
      (readStashed del.workfile (currentOffset + 16)).bind fun data =>
        (Table.find VisimapDeleteData.key (readKey bytes) del.dirtyEntryCache).bind
          fun deleteData =>
          -- An out-dated version stays in the data buffer only.
          (if deleteData.workFileOffset ≠ some currentOffset then
            some { del with entry := { del.entry with data } }
          else
            (rebuildEntry data deleteData.key deleteData.tupleTid del.entry).bind fun entry =>
              store { del with entry }).bind
            (writeBackLoop fuel (currentOffset + (varsize data + 16)))
    else if bytes.length ≠ 0 then none
    else some del

def writeBackStashedEntries (del : VisimapDelete) : Option VisimapDelete :=
  if del.dirtyEntryCache.length = 0 then some del
  else writeBackLoop (del.workfile.length + 1) 0 del

/-- The entry in memory is the newest version; its hash entry becomes invalid. -/
def finish (del : VisimapDelete) : Option VisimapDelete :=
  (if del.entry.dirty then
    del.store.map fun st =>
      match st.entry.key with
      | none => st
      | some key =>
        { st with
          dirtyEntryCache := Table.modify VisimapDeleteData.key key
            (fun deleteData => { deleteData with workFileOffset := none, tupleTid := none })
            st.dirtyEntryCache }
  else some del).bind writeBackStashedEntries

def hideAll : List AOTupleId → VisimapDelete → Option VisimapDelete
  | [], del => some del
  | tupleId :: tupleIds, del => (del.hide tupleId).bind fun r => hideAll tupleIds r.2

end VisimapDelete

/-- A delete command: the relation after it. -/
def visimapDelete (heap : VisimapHeap) (tupleIds : List AOTupleId) : Option VisimapHeap :=
  (VisimapDelete.hideAll tupleIds (.init heap)).bind fun del => del.finish.map VisimapDelete.heap

end Hdb.AppendOnly
