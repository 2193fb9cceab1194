import Hdb.Interconnect.PacketSend
import Hdb.Lib.Returns

/-!
# A tuple is cut into chunks and put together again

`SerializeTuple` writes a tuple into the buffer of a connection if it fits there. Otherwise it makes
a list of chunks, the first of type `TC_WHOLE`, and adds one piece of the tuple after the other: a
piece fills up the last chunk and goes on in new ones, of type `TC_PARTIAL_MID`. When there is more
than one chunk in the end, the first and the last are retyped. `SerializeRecordCacheIntoChunks`
does the same with the record types of the sender.

`CvtChunksToTup` puts the data of the chunks together and reads a tuple from its start. What a heap
tuple had in front of its data is computed again from the number of attributes and the flags.

Main results: `cvtChunksToTup_carries`, that what is read does not depend on the cuts, and
`converted_row`, `converted_direct` and `converted_typeLists`, that what was sent is read back.
-/

namespace Hdb.Interconnect.Motion

open MemTuple (typeAlign)
open PacketSend (TupleChunk TupleChunkType DirectTuple padding gpMaxTupleChunkSize)

/-! ## Tuples -/

def maxAllocSize : ℕ := 0x3fffffff

def recordCacheMagic : ℕ := 0xffff

/-- The size of a `TupSerHeader`. -/
def tupSerHeaderSize : ℕ := 8

/-- `BITMAPLEN` of the attributes, if `HEAP_HASNULL` is set. -/
def nullsLen (infomask natts : ℕ) : ℕ := if infomask.testBit 0 then (natts + 7) / 8 else 0

/-- `memtuple_size_from_uint32`. -/
def memtupleSize (len : ℕ) : ℕ := len &&& 0x3FFFFFF8

/-- A heap tuple: `t_len`, what of its header is sent, and the data from `t_hoff` on. -/
structure HeapTuple where
  tLen : ℕ
  tHoff : ℕ
  infomask : ℕ
  natts : ℕ
  bits : List UInt8
  data : List UInt8
  deriving DecidableEq

inductive GenericTuple where
  | mem (bytes : List UInt8)
  | heap (tuple : HeapTuple)
  deriving DecidableEq

/-- What a tuple that was formed is known to meet: the length of a memtuple stands in its first four
bytes behind `MEMTUP_LEAD_BIT`, and a heap tuple has at most `MaxTupleAttributeNumber` attributes
and room for its null bitmap before the data. -/
def GenericTuple.Formed : GenericTuple → Prop
  | .mem bytes => (ofLittleEndian (bytes.take 4)).testBit 31 = true ∧
      memtupleSize (ofLittleEndian (bytes.take 4)) = bytes.length
  | .heap tuple => tuple.natts ≤ 1664 ∧ tuple.infomask < 65536 ∧
      tuple.bits.length = nullsLen tuple.infomask tuple.natts ∧
      23 + tuple.bits.length ≤ tuple.tHoff ∧ tuple.tHoff + tuple.data.length = tuple.tLen ∧
      tuple.tLen ≤ maxAllocSize

instance : DecidablePred GenericTuple.Formed := fun tuple =>
  match tuple with
  | .mem bytes => inferInstanceAs (Decidable ((ofLittleEndian (bytes.take 4)).testBit 31 = true ∧
      memtupleSize (ofLittleEndian (bytes.take 4)) = bytes.length))
  | .heap tuple => inferInstanceAs (Decidable (tuple.natts ≤ 1664 ∧ tuple.infomask < 65536 ∧
      tuple.bits.length = nullsLen tuple.infomask tuple.natts ∧
      23 + tuple.bits.length ≤ tuple.tHoff ∧ tuple.tHoff + tuple.data.length = tuple.tLen ∧
      tuple.tLen ≤ maxAllocSize))

/-- A tuple of a slot that is sent. -/
structure Row where
  tuple : GenericTuple
  formed : tuple.Formed

/-- The list that `build_tuple_node_list` and `serializeNode` make of the record types. -/
structure RecordCache where
  bytes : List UInt8
  length_le : bytes.length + 11 ≤ maxAllocSize

/-- What of the descriptor of the tuples is used here: `natts` and `tdhasoid`. -/
structure SerTupInfo where
  natts : ℕ
  tdhasoid : Bool

/-! ## Sending -/

/-- A list of chunks, which always has a last one. -/
structure TupleChunkList where
  front : List TupleChunk
  last : TupleChunk

namespace TupleChunkList

/-- The list that both functions begin with. -/
def start : TupleChunkList := ⟨[], ⟨.whole, []⟩⟩

def chunks (tcList : TupleChunkList) : List TupleChunk := tcList.front ++ [tcList.last]

/-- The bytes are copied to the end of the last chunk. -/
def copy (tcList : TupleChunkList) (bytes : List UInt8) : TupleChunkList :=
  { tcList with last := { tcList.last with data := tcList.last.data ++ bytes } }

/-- A chunk from the cache is appended. -/
def newChunk (tcList : TupleChunkList) : TupleChunkList := ⟨tcList.chunks, ⟨.partialMid, []⟩⟩

end TupleChunkList

variable (cfg : PacketConfig)

/-- The room that is left in the last chunk. -/
def available (tcList : TupleChunkList) : ℕ := gpMaxTupleChunkSize cfg - tcList.last.length

theorem gpMaxTupleChunkSize_ge : 444 ≤ gpMaxTupleChunkSize cfg := by
  have hmin := cfg.min_le
  have hheader := PacketSend.headerSize_le cfg
  unfold gpMaxTupleChunkSize tupleChunkHeaderSize
  omega

theorem available_newChunk (tcList : TupleChunkList) : 0 < available cfg tcList.newChunk := by
  have hge := gpMaxTupleChunkSize_ge cfg
  change 0 < gpMaxTupleChunkSize cfg - 4
  omega

/-- `addByteStringToChunkList`. -/
def addByteString (tcList : TupleChunkList) (data : List UInt8) : TupleChunkList :=
  if data.length ≤ available cfg tcList then tcList.copy data
  else
    addByteString (tcList.copy (data.take (available cfg tcList))).newChunk
      (data.drop (available cfg tcList))
termination_by 2 * data.length + if available cfg tcList = 0 then 1 else 0
decreasing_by
  have hnew := available_newChunk cfg (tcList.copy (data.take (available cfg tcList)))
  rw [List.length_drop, if_neg hnew.ne']
  split_ifs <;> omega

/-- `addPadding`, byte by byte. -/
def addPadding (tcList : TupleChunkList) (size : ℕ) : TupleChunkList :=
  (padding cfg size).foldl (fun tcList x => addByteString cfg tcList [x]) tcList

/-- More than one chunk: the first and the last are retyped. -/
def setTypes (tcList : TupleChunkList) : List TupleChunk :=
  match tcList.front with
  | [] => [tcList.last]
  | first :: rest =>
    { first with type := .partialStart } :: rest ++ [{ tcList.last with type := .partialEnd }]

/-- A `TupSerHeader`. -/
def tupSerHeader (tuplen natts infomask : ℕ) : List UInt8 :=
  toLittleEndian 4 tuplen ++ toLittleEndian 2 natts ++ toLittleEndian 2 infomask

/-- `tuplen` of a heap tuple. -/
def serializedLen (tuple : HeapTuple) : ℕ :=
  tupSerHeaderSize + typeAlign cfg.tupleChunkAlign tuple.bits.length + tuple.data.length

/-- The pieces of a tuple, each with whether padding follows it. -/
def GenericTuple.pieces : GenericTuple → List (List UInt8 × Bool)
  | .mem bytes => [(bytes, true)]
  | .heap tuple =>
    (tupSerHeader (serializedLen cfg tuple) tuple.natts tuple.infomask, false) ::
      if tuple.bits = [] then [(tuple.data, true)] else [(tuple.bits, true), (tuple.data, true)]

/-- The pieces of the record types. -/
def RecordCache.pieces (cache : RecordCache) : List (List UInt8 × Bool) :=
  [(tupSerHeader (tupSerHeaderSize + cache.bytes.length) recordCacheMagic recordCacheMagic, false),
    (cache.bytes, true)]

/-- A piece is added, and padding behind it. -/
def addPiece (tcList : TupleChunkList) (piece : List UInt8 × Bool) : TupleChunkList :=
  if piece.2 then addPadding cfg (addByteString cfg tcList piece.1) piece.1.length
  else addByteString cfg tcList piece.1

/-- The chunks that `SerializeTuple` and `SerializeRecordCacheIntoChunks` make. -/
def serializePieces (pieces : List (List UInt8 × Bool)) : List TupleChunk :=
  setTypes (pieces.foldl (addPiece cfg) .start)

/-- What `SerializeTuple` writes into the buffer of a connection. -/
def GenericTuple.direct : GenericTuple → DirectTuple
  | .mem bytes => .memTuple bytes
  | .heap tuple => .heapTuple tuple.natts tuple.infomask tuple.bits tuple.data

/-- What `SerializeTuple` leaves: a chunk in the buffer with what it wrote behind it, or a list. -/
inductive Serialized where
  | direct (chunk : TupleChunk) (behind : List UInt8)
  | chunks (tcList : List TupleChunk)

/-- `SerializeTuple`. `prilen` is the room in the buffer, and `none` when there is no buffer, as for
a broadcast. -/
def serializeTuple (info : SerTupInfo) (tuple : GenericTuple) (prilen : Option ℕ) : Serialized :=
  let room := (prilen.filter (tupleChunkHeaderSize < ·)).getD 0
  if info.natts = 0 ∧ 0 < room then .direct ⟨.empty, []⟩ []
  else if (tuple.direct.chunk cfg).1.length ≤ room then
    .direct (tuple.direct.chunk cfg).1 (tuple.direct.chunk cfg).2
  else .chunks (serializePieces cfg (tuple.pieces cfg))

/-! ## Receiving -/

/-- The errors of the receiver. Those of `addChunkToSorter` name the sender. -/
inductive MotionError where
  /-- "Single chunk's type must be TC_WHOLE." -/
  | singleChunk
  /-- "last chunk of collection must have type TC_PARTIAL_END" -/
  | lastChunk
  /-- "middle chunk of collection must have type TC_PARTIAL_MID" -/
  | middleChunk
  /-- "chunked tuple is too large" -/
  | tooLarge
  /-- "unexpected tuple chunk type %d at beginning of chunk list" -/
  | unexpectedType (tcType : ℕ)
  /-- "interconnect error: cannot convert chunks to a heap tuple", with its lengths as the detail -/
  | tupleLen (tuplen nullslen : ℕ)
  /-- "received %s chunk from [src=%d,mn=%d] after partial tuple data" -/
  | afterPartial (tcType : TupleChunkType) (srcRoute motNodeId : ℕ)
  /-- "received %s chunk from [src=%d,mn=%d] without any leading tuple data" -/
  | withoutLeading (tcType : TupleChunkType) (srcRoute motNodeId : ℕ)
  /-- "received end-of-stream chunk from [src=%d,mn=%d] when already marked as at end-of-stream" -/
  | alreadyAtEnd (srcRoute motNodeId : ℕ)
  /-- "received tuple chunk of unrecognized type %d (len %d) from [src=%d,mn=%d]" -/
  | unrecognizedType (tcType len srcRoute motNodeId : ℕ)
  /-- "Received tuple-chunk of size %u; smaller than chunk header size %d!" -/
  | belowHeader (len : ℕ)
  /-- The errors of splitting a packet. -/
  | parsing (e : ChunkError)
  /-- More is read than was sent, which the code does not check. -/
  | overread
  /-- `heap_form_tuple` is called with values that were never set. -/
  | unsetValues
  /-- An assertion fails. -/
  | assertion

/-- `GetChunkType`. -/
def getChunkType (chunk : List UInt8) : ℕ := ofLittleEndian ((chunk.drop 2).take 2)

/-- The data of a chunk, without its header. -/
def chunkData (chunk : List UInt8) : List UInt8 := chunk.drop tupleChunkHeaderSize

/-- `n` bytes of the data from `pos` on. -/
def readAt (serData : List UInt8) (pos n : ℕ) : Except MotionError (List UInt8) :=
  if pos + n ≤ serData.length then .ok ((serData.drop pos).take n) else .error .overread

/-- What the chunks are converted to: a tuple, or the record types of the sender. -/
inductive Converted where
  | tuple (tuple : GenericTuple)
  | typeLists (bytes : List UInt8)
  deriving DecidableEq

/-- The size of the header of a heap tuple that is received. -/
def receivedHoff (infomask nullslen : ℕ) : ℕ :=
  typeAlign 8 (23 + typeAlign cfg.tupleChunkAlign nullslen + if infomask.testBit 3 then 4 else 0)

/-- The flags of a heap tuple that is received: `HEAP_XACT_MASK` is cleared, both transactions are
invalid, and `HEAP_HASOID` follows the descriptor. -/
def receivedInfomask (info : SerTupInfo) (infomask : ℕ) : ℕ :=
  (infomask &&& 0xF ||| 0x0A00) ||| if info.tdhasoid then 0x0008 else 0

/-- A difference of unsigned integers. -/
def subUInt32 (a b : ℕ) : ℕ := (a + 4294967296 - b) % 4294967296

/-- The heap tuple that `CvtChunksToTup` makes. -/
def readHeapTuple (info : SerTupInfo) (serData : List UInt8) (tuplen natts infomask : ℕ) :
    Except MotionError Converted := do
  let nullslen := nullsLen infomask natts
  if tuplen < tupSerHeaderSize + nullslen then .error (.tupleLen tuplen nullslen)
  else do
    let padded := typeAlign cfg.tupleChunkAlign nullslen
    let datalen := subUInt32 tuplen (tupSerHeaderSize + padded)
    let bits ← readAt serData tupSerHeaderSize nullslen
    let data ← readAt serData (tupSerHeaderSize + padded) datalen
    let hoff := receivedHoff cfg infomask nullslen
    -- `t_hoff` has eight bits
    return .tuple (.heap ⟨hoff + datalen, hoff % 256, receivedInfomask info infomask, natts, bits,
      data⟩)

/-- The second half of `CvtChunksToTup`, for the data put together. -/
def deserialize (info : SerTupInfo) (serData : List UInt8) : Except MotionError Converted := do
  let tuplen := ofLittleEndian (← readAt serData 0 4)
  if tuplen.testBit 31 then return .tuple (.mem (← readAt serData 0 (memtupleSize tuplen)))
  else do
    let natts := ofLittleEndian (← readAt serData 4 2)
    let infomask := ofLittleEndian (← readAt serData 6 2)
    if natts = recordCacheMagic ∧ infomask = recordCacheMagic then
      return .typeLists (← readAt serData tupSerHeaderSize (subUInt32 tuplen tupSerHeaderSize))
    else readHeapTuple cfg info serData tuplen natts infomask

/-- The tuple that `heap_form_tuple` makes for a descriptor without attributes. -/
def formEmptyTuple (info : SerTupInfo) : HeapTuple :=
  let hoff := typeAlign 8 (23 + if info.tdhasoid then 4 else 0)
  ⟨hoff, hoff, if info.tdhasoid then 0x0008 else 0, 0, [], []⟩

/-- The checks of the chunks behind the first one. -/
def checkChunks (totalLen : ℕ) : List (List UInt8) → Except MotionError Unit
  | [] => .ok ()
  | chunk :: rest =>
    let total := totalLen + (chunkData chunk).length
    if rest = [] ∧ getChunkType chunk ≠ TupleChunkType.partialEnd.code then .error .lastChunk
    else if rest ≠ [] ∧ getChunkType chunk ≠ TupleChunkType.partialMid.code then .error .middleChunk
    else if maxAllocSize < total then .error .tooLarge
    else checkChunks total rest

/-- `CvtChunksToTup`. -/
def cvtChunksToTup (info : SerTupInfo) : List (List UInt8) → Except MotionError Converted
  | [] => .error .assertion
  | first :: rest =>
    if getChunkType first = TupleChunkType.whole.code then
      if rest = [] then deserialize cfg info (chunkData first) else .error .singleChunk
    else if getChunkType first = TupleChunkType.empty.code then
      if info.natts = 0 then .ok (.tuple (.heap (formEmptyTuple info))) else .error .unsetValues
    else if getChunkType first = TupleChunkType.partialStart.code then do
      checkChunks (chunkData first).length rest
      deserialize cfg info ((first :: rest).flatMap chunkData)
    else .error (.unexpectedType (getChunkType first))

/-! ## The chunks carry the bytes -/

/-- The chunks behind the first one. -/
def chunksBehind (ds : List (List UInt8)) (e : List UInt8) : List TupleChunk :=
  ds.map (⟨.partialMid, ·⟩) ++ [⟨.partialEnd, e⟩]

/-- The chunks are typed as the receiver takes them, and carry the bytes. -/
inductive Carries : List TupleChunk → List UInt8 → Prop
  | whole (content : List UInt8) : Carries [⟨.whole, content⟩] content
  | cut (d : List UInt8) (ds : List (List UInt8)) (e : List UInt8) :
      Carries (⟨.partialStart, d⟩ :: chunksBehind ds e) (d ++ ds.flatten ++ e)

/-- A list while it is made: its types, what it carries so far, and that no chunk is too long. -/
structure Filling (tcList : TupleChunkList) (content : List UInt8) : Prop where
  content : tcList.chunks.flatMap (·.data) = content
  types : tcList.front = [] ∧ tcList.last.type = .whole ∨
    ∃ (d : List UInt8) (ds : List (List UInt8)),
      tcList.front = ⟨.whole, d⟩ :: ds.map (⟨.partialMid, ·⟩) ∧ tcList.last.type = .partialMid
  length_le : ∀ chunk ∈ tcList.chunks, chunk.length ≤ gpMaxTupleChunkSize cfg

variable {cfg : PacketConfig} {tcList : TupleChunkList} {content : List UInt8}

theorem filling_start (cfg : PacketConfig) : Filling cfg .start [] where
  content := rfl
  types := Or.inl ⟨rfl, rfl⟩
  length_le chunk hchunk := by
    have hge := gpMaxTupleChunkSize_ge cfg
    rw [List.mem_singleton.mp hchunk]
    change 4 ≤ gpMaxTupleChunkSize cfg
    omega

theorem Filling.copy (h : Filling cfg tcList content) {bytes : List UInt8}
    (hle : bytes.length ≤ available cfg tcList) :
    Filling cfg (tcList.copy bytes) (content ++ bytes) where
  content := by
    rw [← h.content]
    simp [TupleChunkList.chunks, TupleChunkList.copy]
  types := h.types
  length_le chunk hchunk := by
    obtain hchunk | hchunk := List.mem_append.mp hchunk
    · exact h.length_le chunk (List.mem_append_left _ hchunk)
    · have hlast := h.length_le tcList.last (List.mem_append_right _ (List.mem_singleton_self _))
      rw [List.mem_singleton.mp hchunk]
      unfold available at hle
      simp only [TupleChunk.length, TupleChunkList.copy, List.length_append] at hle hlast ⊢
      omega

theorem Filling.newChunk (h : Filling cfg tcList content) :
    Filling cfg tcList.newChunk content where
  content := by
    rw [← h.content]
    simp [TupleChunkList.chunks, TupleChunkList.newChunk]
  types := by
    right
    unfold TupleChunkList.newChunk TupleChunkList.chunks
    obtain ⟨hfront, hlast⟩ | ⟨d, ds, hfront, hlast⟩ := h.types
    · exact ⟨tcList.last.data, [], by rw [hfront, ← hlast]; rfl, rfl⟩
    · refine ⟨d, ds ++ [tcList.last.data], ?_, rfl⟩
      rw [hfront, List.map_append, ← hlast]
      rfl
  length_le chunk hchunk := by
    obtain hchunk | hchunk := List.mem_append.mp hchunk
    · exact h.length_le chunk hchunk
    · have hge := gpMaxTupleChunkSize_ge cfg
      rw [List.mem_singleton.mp hchunk]
      change 4 ≤ gpMaxTupleChunkSize cfg
      omega

theorem Filling.addByteString (h : Filling cfg tcList content) (data : List UInt8) :
    Filling cfg (addByteString cfg tcList data) (content ++ data) := by
  induction tcList, data using addByteString.induct cfg generalizing content with
  | case1 tcList data hle =>
    rw [Motion.addByteString, if_pos hle]
    exact h.copy hle
  | case2 tcList data hle ih =>
    rw [Motion.addByteString, if_neg hle]
    have htake := (h.copy (List.length_take_le (available cfg tcList) data)).newChunk
    have hrest := ih htake
    rwa [List.append_assoc, List.take_append_drop] at hrest

theorem Filling.addPadding (h : Filling cfg tcList content) (size : ℕ) :
    Filling cfg (addPadding cfg tcList size) (content ++ padding cfg size) := by
  unfold Motion.addPadding
  induction padding cfg size generalizing tcList content with
  | nil => rwa [List.append_nil]
  | cons x xs ih =>
    have hnext := ih (h.addByteString [x])
    rwa [List.append_assoc] at hnext

/-- What the pieces come to. -/
def payload (cfg : PacketConfig) (pieces : List (List UInt8 × Bool)) : List UInt8 :=
  pieces.flatMap fun piece => piece.1 ++ if piece.2 then padding cfg piece.1.length else []

theorem Filling.pieces (h : Filling cfg tcList content) (pieces : List (List UInt8 × Bool)) :
    Filling cfg (pieces.foldl (addPiece cfg) tcList) (content ++ payload cfg pieces) := by
  induction pieces generalizing tcList content with
  | nil => simpa [payload] using h
  | cons piece pieces ih =>
    obtain ⟨bytes, padded⟩ := piece
    have hbytes := h.addByteString bytes
    have hpiece : Filling cfg (addPiece cfg tcList (bytes, padded))
        (content ++ (bytes ++ if padded then padding cfg bytes.length else [])) := by
      cases padded with
      | false => simpa [addPiece] using hbytes
      | true => simpa [addPiece] using hbytes.addPadding bytes.length
    have hrest := ih hpiece
    rwa [List.append_assoc] at hrest

theorem Filling.setTypes (h : Filling cfg tcList content) : Carries (setTypes tcList) content := by
  have hcontent := h.content
  obtain ⟨hfront, hlast⟩ | ⟨d, ds, hfront, -⟩ := h.types
  · unfold Motion.setTypes
    unfold TupleChunkList.chunks at hcontent
    rw [hfront] at hcontent ⊢
    obtain rfl : tcList.last.data = content := by simpa using hcontent
    have hwhole := Carries.whole tcList.last.data
    rwa [← hlast] at hwhole
  · unfold Motion.setTypes
    unfold TupleChunkList.chunks at hcontent
    rw [hfront] at hcontent ⊢
    have hflat : d ++ ds.flatten ++ tcList.last.data = content := by
      simpa [List.flatMap_map, List.flatMap_append, List.flatMap_id'] using hcontent
    rw [← hflat]
    exact Carries.cut d ds tcList.last.data

theorem length_setTypes_le (h : Filling cfg tcList content) :
    ∀ chunk ∈ setTypes tcList, chunk.length ≤ gpMaxTupleChunkSize cfg := by
  intro chunk hchunk
  have hle := h.length_le
  unfold setTypes at hchunk
  unfold TupleChunkList.chunks at hle
  cases hfront : tcList.front with
  | nil =>
    rw [hfront] at hchunk hle
    exact hle chunk hchunk
  | cons first rest =>
    rw [hfront] at hchunk hle
    simp only [List.cons_append, List.mem_cons, List.mem_append, List.not_mem_nil,
      or_false] at hchunk
    obtain rfl | hrest | rfl := hchunk
    · exact hle first (by simp)
    · exact hle chunk (by simp [hrest])
    · exact hle tcList.last (by simp)

/-- **The list carries its pieces**, whatever the length that chunks may have. -/
theorem carries_serializePieces (cfg : PacketConfig) (pieces : List (List UInt8 × Bool)) :
    Carries (serializePieces cfg pieces) (payload cfg pieces) ∧
      ∀ chunk ∈ serializePieces cfg pieces, chunk.length ≤ gpMaxTupleChunkSize cfg := by
  have hfilling := (filling_start cfg).pieces pieces
  exact ⟨hfilling.setTypes, length_setTypes_le hfilling⟩

/-! ## What is read from them -/

variable {info : SerTupInfo}

@[simp] theorem getChunkType_bytes (chunk : TupleChunk) :
    getChunkType chunk.bytes = chunk.type.code := by
  have htype : (chunk.bytes.drop 2).take 2 = toLittleEndian 2 chunk.type.code := by
    unfold TupleChunk.bytes
    rw [List.append_assoc, List.drop_left' (length_toLittleEndian 2 _),
      List.take_left' (length_toLittleEndian 2 _)]
  have hlt : chunk.type.code < 256 ^ 2 := by cases chunk.type <;> decide
  rw [getChunkType, htype, ofLittleEndian_toLittleEndian, Nat.mod_eq_of_lt hlt]

@[simp] theorem chunkData_bytes (chunk : TupleChunk) : chunkData chunk.bytes = chunk.data := by
  unfold chunkData TupleChunk.bytes
  refine List.drop_left' ?_
  rw [List.length_append, length_toLittleEndian, length_toLittleEndian]
  rfl

theorem checkChunks_cut (totalLen : ℕ) {ds : List (List UInt8)} {e : List UInt8}
    (hle : totalLen + ds.flatten.length + e.length ≤ maxAllocSize) :
    checkChunks totalLen ((chunksBehind ds e).map TupleChunk.bytes) = .ok () := by
  induction ds generalizing totalLen with
  | nil =>
    simp only [List.flatten_nil, List.length_nil] at hle
    simp only [chunksBehind, List.map_nil, List.nil_append, List.map_cons, checkChunks,
      getChunkType_bytes, chunkData_bytes]
    rw [if_neg (by simp), if_neg (by simp), if_neg (by omega)]
  | cons d ds ih =>
    rw [List.flatten_cons, List.length_append] at hle
    have hrest := ih (totalLen + d.length) (by omega)
    simp only [chunksBehind, List.map_cons, List.cons_append, checkChunks, getChunkType_bytes,
      chunkData_bytes]
    rw [if_neg (by simp), if_neg (by simp), if_neg (by omega)]
    exact hrest

/-- **What is read does not depend on the cuts**: it is read from the bytes the chunks carry. -/
theorem cvtChunksToTup_carries (cfg : PacketConfig) (info : SerTupInfo) {chunks : List TupleChunk}
    {content : List UInt8} (h : Carries chunks content) (hle : content.length ≤ maxAllocSize) :
    cvtChunksToTup cfg info (chunks.map TupleChunk.bytes) = deserialize cfg info content := by
  cases h with
  | whole =>
    rw [List.map_cons, List.map_nil, cvtChunksToTup, getChunkType_bytes, if_pos rfl, if_pos rfl,
      chunkData_bytes]
  | cut d ds e =>
    rw [List.length_append, List.length_append] at hle
    have hcheck := checkChunks_cut d.length hle
    have hdata : ((⟨.partialStart, d⟩ :: chunksBehind ds e).map TupleChunk.bytes).flatMap
        chunkData = d ++ ds.flatten ++ e := by
      simp [chunksBehind, List.flatMap_map, List.flatMap_append, List.flatMap_id']
    rw [← hdata, List.map_cons, cvtChunksToTup, getChunkType_bytes, chunkData_bytes, hcheck]
    rfl

theorem readAt_append (a b c : List UInt8) : readAt (a ++ b ++ c) a.length b.length = .ok b := by
  have hlength : a.length + b.length ≤ (a ++ b ++ c).length := by
    rw [List.length_append, List.length_append]
    omega
  rw [readAt, if_pos hlength, List.append_assoc, List.drop_left' rfl, List.take_left' rfl]

/-- A part of the data is read from where it stands. -/
theorem readAt_eq {serData a b c : List UInt8} {pos n : ℕ} (h : serData = a ++ b ++ c)
    (hpos : pos = a.length) (hn : n = b.length) : readAt serData pos n = .ok b := by
  rw [h, hpos, hn]
  exact readAt_append a b c

theorem ofLittleEndian_eq {n v : ℕ} (h : v < 256 ^ n) :
    ofLittleEndian (toLittleEndian n v) = v := by
  rw [ofLittleEndian_toLittleEndian, Nat.mod_eq_of_lt h]

/-- The first four bytes of a memtuple are there. -/
theorem four_le_length {bytes : List UInt8}
    (hlead : (ofLittleEndian (bytes.take 4)).testBit 31 = true) : 4 ≤ bytes.length := by
  by_contra hshort
  have hlt := ofLittleEndian_lt (bytes.take 4)
  have hpow : 256 ^ (bytes.take 4).length ≤ 256 ^ 3 :=
    Nat.pow_le_pow_right (by norm_num) (by rw [List.length_take]; omega)
  have hbound : 256 ^ 3 < 2 ^ 31 := by norm_num
  have hword : ofLittleEndian (bytes.take 4) < 2 ^ 31 := hlt.trans (hpow.trans_lt hbound)
  have hbit := Nat.testBit_lt_two_pow hword
  rw [hbit] at hlead
  cases hlead

theorem deserialize_mem {bytes tail : List UInt8}
    (hformed : (GenericTuple.mem bytes).Formed) :
    deserialize cfg info (bytes ++ tail) = .ok (.tuple (.mem bytes)) := by
  obtain ⟨hlead, hsize⟩ := hformed
  have hfour := four_le_length hlead
  have hsplit : bytes ++ tail = [] ++ bytes.take 4 ++ (bytes.drop 4 ++ tail) := by
    rw [List.nil_append, ← List.append_assoc, List.take_append_drop]
  have hword : readAt (bytes ++ tail) 0 4 = .ok (bytes.take 4) :=
    readAt_eq hsplit rfl (by rw [List.length_take]; omega)
  have hall : readAt (bytes ++ tail) 0 bytes.length = .ok bytes := readAt_append [] bytes tail
  unfold deserialize
  rw [hword, ok_bind]
  simp only [hlead, if_true, hsize, hall, ok_bind]
  rfl

/-- What a header is read back as. -/
theorem deserialize_header (cfg : PacketConfig) (info : SerTupInfo) {tuplen natts infomask : ℕ}
    (rest : List UInt8) (htuplen : tuplen < 2 ^ 31) (hnatts : natts < 65536)
    (hinfomask : infomask < 65536) :
    deserialize cfg info (tupSerHeader tuplen natts infomask ++ rest) =
      if natts = recordCacheMagic ∧ infomask = recordCacheMagic then
        (readAt (tupSerHeader tuplen natts infomask ++ rest) tupSerHeaderSize
          (subUInt32 tuplen tupSerHeaderSize)).map .typeLists
      else
        readHeapTuple cfg info (tupSerHeader tuplen natts infomask ++ rest) tuplen natts
          infomask := by
  have htuplen' : readAt (tupSerHeader tuplen natts infomask ++ rest) 0 4 =
      .ok (toLittleEndian 4 tuplen) :=
    readAt_eq (a := []) (c := toLittleEndian 2 natts ++ toLittleEndian 2 infomask ++ rest)
      (by simp [tupSerHeader]) rfl (by simp)
  have hnatts' : readAt (tupSerHeader tuplen natts infomask ++ rest) 4 2 =
      .ok (toLittleEndian 2 natts) :=
    readAt_eq (a := toLittleEndian 4 tuplen) (c := toLittleEndian 2 infomask ++ rest)
      (by simp [tupSerHeader]) (by simp) (by simp)
  have hinfomask' : readAt (tupSerHeader tuplen natts infomask ++ rest) 6 2 =
      .ok (toLittleEndian 2 infomask) :=
    readAt_eq (a := toLittleEndian 4 tuplen ++ toLittleEndian 2 natts) (c := rest)
      (by simp [tupSerHeader]) (by simp) (by simp)
  have hbit : ¬ tuplen.testBit 31 = true := by
    rw [Nat.testBit_lt_two_pow htuplen]
    exact Bool.false_ne_true
  simp only [deserialize, htuplen', hnatts', hinfomask', ok_bind,
    ofLittleEndian_eq (show tuplen < 256 ^ 4 by omega),
    ofLittleEndian_eq (show natts < 256 ^ 2 by omega),
    ofLittleEndian_eq (show infomask < 256 ^ 2 by omega), if_neg hbit]
  split_ifs
  · cases readAt (tupSerHeader tuplen natts infomask ++ rest) tupSerHeaderSize
      (subUInt32 tuplen tupSerHeaderSize) <;> rfl
  · rfl

/-- The tuple as it is received: its attributes and nulls are as they were sent, and what else its
header holds is as the receiver sets it. -/
def HeapTuple.received (cfg : PacketConfig) (info : SerTupInfo) (tuple : HeapTuple) : HeapTuple :=
  let hoff := receivedHoff cfg tuple.infomask tuple.bits.length
  ⟨hoff + tuple.data.length, hoff, receivedInfomask info tuple.infomask, tuple.natts, tuple.bits,
    tuple.data⟩

/-- A memtuple is received as it is. -/
def GenericTuple.received (cfg : PacketConfig) (info : SerTupInfo) : GenericTuple → GenericTuple
  | .mem bytes => .mem bytes
  | .heap tuple => .heap (tuple.received cfg info)

theorem length_padding (cfg : PacketConfig) (n : ℕ) :
    n + (padding cfg n).length = typeAlign cfg.tupleChunkAlign n := by
  obtain ⟨hge, -, -⟩ := typeAlign_spec cfg n
  rw [padding, List.length_replicate]
  omega

theorem padding_zero : padding cfg 0 = [] := by
  have hzero : typeAlign cfg.tupleChunkAlign 0 = 0 := PacketSend.typeAlign_of_dvd (dvd_zero _)
  rw [padding, hzero]
  rfl

/-- What is sent of a heap tuple, up to its data. -/
def heapBytes (cfg : PacketConfig) (tuple : HeapTuple) : List UInt8 :=
  tupSerHeader (serializedLen cfg tuple) tuple.natts tuple.infomask ++
    (tuple.bits ++ padding cfg tuple.bits.length) ++ tuple.data

theorem length_tupSerHeader (tuplen natts infomask : ℕ) :
    (tupSerHeader tuplen natts infomask).length = 8 := by
  simp [tupSerHeader]

theorem length_bits_le {tuple : HeapTuple} (hformed : (GenericTuple.heap tuple).Formed) :
    tuple.bits.length ≤ 208 := by
  obtain ⟨hnatts, -, hbits, -⟩ := hformed
  rw [hbits, nullsLen]
  split_ifs <;> omega

theorem length_heapBytes (tuple : HeapTuple) :
    (heapBytes cfg tuple).length = serializedLen cfg tuple := by
  simp only [heapBytes, List.length_append, length_tupSerHeader, length_padding]
  rfl

theorem serializedLen_lt (cfg : PacketConfig) {tuple : HeapTuple}
    (hformed : (GenericTuple.heap tuple).Formed) :
    serializedLen cfg tuple + 3 ≤ maxAllocSize := by
  obtain ⟨-, -, -, hhoff, hdata, hle⟩ := hformed
  obtain ⟨-, hpadded, -⟩ := typeAlign_spec cfg tuple.bits.length
  unfold serializedLen tupSerHeaderSize
  omega

theorem receivedHoff_lt (cfg : PacketConfig) {tuple : HeapTuple}
    (hformed : (GenericTuple.heap tuple).Formed) :
    receivedHoff cfg tuple.infomask tuple.bits.length < 256 := by
  have hbits := length_bits_le hformed
  obtain ⟨-, hpadded, -⟩ := typeAlign_spec cfg tuple.bits.length
  unfold receivedHoff
  generalize typeAlign cfg.tupleChunkAlign tuple.bits.length = padded at hpadded ⊢
  unfold typeAlign
  split_ifs <;> omega

theorem deserialize_heap (cfg : PacketConfig) (info : SerTupInfo) {tuple : HeapTuple}
    (hformed : (GenericTuple.heap tuple).Formed) (tail : List UInt8) :
    deserialize cfg info (heapBytes cfg tuple ++ tail) =
      .ok (.tuple (.heap (tuple.received cfg info))) := by
  have hlen := serializedLen_lt cfg hformed
  have hhoff := receivedHoff_lt cfg hformed
  obtain ⟨hnatts, hinfomask, hbits, -⟩ := hformed
  have hmax : maxAllocSize < 2 ^ 31 := by decide
  have hpadded := length_padding cfg tuple.bits.length
  have hserialized : serializedLen cfg tuple =
      8 + typeAlign cfg.tupleChunkAlign tuple.bits.length + tuple.data.length := rfl
  have hmagic : ¬ (tuple.natts = recordCacheMagic ∧ tuple.infomask = recordCacheMagic) := by
    unfold recordCacheMagic
    omega
  -- the null bitmap and the data are read from where they were put
  have hreadBits : readAt (heapBytes cfg tuple ++ tail) tupSerHeaderSize tuple.bits.length =
      .ok tuple.bits :=
    readAt_eq (a := tupSerHeader (serializedLen cfg tuple) tuple.natts tuple.infomask)
      (c := padding cfg tuple.bits.length ++ tuple.data ++ tail)
      (by simp [heapBytes]) (length_tupSerHeader _ _ _).symm rfl
  have hreadData : readAt (heapBytes cfg tuple ++ tail)
      (tupSerHeaderSize + typeAlign cfg.tupleChunkAlign tuple.bits.length) tuple.data.length =
      .ok tuple.data := by
    refine readAt_eq (a := tupSerHeader (serializedLen cfg tuple) tuple.natts tuple.infomask ++
      (tuple.bits ++ padding cfg tuple.bits.length)) (c := tail) (by simp [heapBytes]) ?_ rfl
    rw [List.length_append, List.length_append, length_tupSerHeader, hpadded]
    rfl
  have hdatalen : subUInt32 (serializedLen cfg tuple)
      (tupSerHeaderSize + typeAlign cfg.tupleChunkAlign tuple.bits.length) = tuple.data.length := by
    unfold subUInt32 tupSerHeaderSize
    omega
  have hlong : ¬ serializedLen cfg tuple < tupSerHeaderSize + tuple.bits.length := by
    unfold tupSerHeaderSize
    omega
  have hsplit : heapBytes cfg tuple ++ tail =
      tupSerHeader (serializedLen cfg tuple) tuple.natts tuple.infomask ++
        (tuple.bits ++ padding cfg tuple.bits.length ++ tuple.data ++ tail) := by
    simp [heapBytes]
  have hheader := deserialize_header cfg info
    (tuple.bits ++ padding cfg tuple.bits.length ++ tuple.data ++ tail)
    (show serializedLen cfg tuple < 2 ^ 31 by omega) (show tuple.natts < 65536 by omega) hinfomask
  rw [← hsplit, if_neg hmagic] at hheader
  rw [hheader, readHeapTuple, ← hbits]
  simp only [if_neg hlong, hdatalen, hreadBits, hreadData, ok_bind, Nat.mod_eq_of_lt hhoff]
  rfl

theorem deserialize_typeLists (cache : RecordCache) (tail : List UInt8) :
    deserialize cfg info (tupSerHeader (tupSerHeaderSize + cache.bytes.length) recordCacheMagic
      recordCacheMagic ++ cache.bytes ++ tail) = .ok (.typeLists cache.bytes) := by
  have hlen := cache.length_le
  have hmax : maxAllocSize < 2 ^ 31 := by decide
  have hsub : subUInt32 (tupSerHeaderSize + cache.bytes.length) tupSerHeaderSize =
      cache.bytes.length := by
    unfold subUInt32 tupSerHeaderSize
    omega
  have hread : readAt (tupSerHeader (tupSerHeaderSize + cache.bytes.length) recordCacheMagic
      recordCacheMagic ++ (cache.bytes ++ tail)) tupSerHeaderSize cache.bytes.length =
        .ok cache.bytes :=
    readAt_eq (List.append_assoc _ _ _).symm (length_tupSerHeader _ _ _).symm rfl
  rw [List.append_assoc, deserialize_header cfg info _ (by unfold tupSerHeaderSize; omega)
    (by decide) (by decide), if_pos ⟨rfl, rfl⟩, hsub, hread]
  rfl

/-! ## Each way to write a tuple -/

theorem payload_heap (cfg : PacketConfig) (tuple : HeapTuple) :
    payload cfg ((GenericTuple.heap tuple).pieces cfg) =
      heapBytes cfg tuple ++ padding cfg tuple.data.length := by
  by_cases hbits : tuple.bits = []
  · simp [GenericTuple.pieces, payload, heapBytes, hbits, padding_zero]
  · simp [GenericTuple.pieces, payload, heapBytes, hbits]

theorem length_mem_le {bytes : List UInt8} (hformed : (GenericTuple.mem bytes).Formed) :
    bytes.length + 3 ≤ maxAllocSize := by
  have hle : ofLittleEndian (bytes.take 4) &&& 0x3FFFFFF8 ≤ 0x3FFFFFF8 := Nat.and_le_right
  have hsize : ofLittleEndian (bytes.take 4) &&& 0x3FFFFFF8 = bytes.length := hformed.2
  unfold maxAllocSize
  omega

/-- **A tuple is read back from the chunks that were made of it**, wherever they were cut. -/
theorem converted_row (row : Row) :
    cvtChunksToTup cfg info ((serializePieces cfg (row.tuple.pieces cfg)).map TupleChunk.bytes) =
      .ok (.tuple (row.tuple.received cfg info)) := by
  obtain ⟨tuple, hformed⟩ := row
  have hcarries := (carries_serializePieces cfg (tuple.pieces cfg)).1
  cases tuple with
  | mem bytes =>
    have hpadded := length_padding cfg bytes.length
    obtain ⟨-, hpadding, -⟩ := typeAlign_spec cfg bytes.length
    have hlength := length_mem_le hformed
    have hpayload : payload cfg ((GenericTuple.mem bytes).pieces cfg) =
        bytes ++ padding cfg bytes.length := by
      simp [GenericTuple.pieces, payload]
    rw [hpayload] at hcarries
    rw [cvtChunksToTup_carries cfg info hcarries (by rw [List.length_append]; omega)]
    exact deserialize_mem hformed
  | heap heap =>
    have hpadded := length_padding cfg heap.data.length
    obtain ⟨-, hpadding, -⟩ := typeAlign_spec cfg heap.data.length
    have hlength := serializedLen_lt cfg hformed
    rw [payload_heap] at hcarries
    rw [cvtChunksToTup_carries cfg info hcarries
      (by rw [List.length_append, length_heapBytes]; omega)]
    exact deserialize_heap cfg info hformed _

/-- **The same tuple is read from the chunk that is written into the buffer.** -/
theorem converted_direct (row : Row) :
    cvtChunksToTup cfg info [(row.tuple.direct.chunk cfg).1.bytes] =
      .ok (.tuple (row.tuple.received cfg info)) := by
  obtain ⟨tuple, hformed⟩ := row
  cases tuple with
  | mem bytes =>
    have hpadded := length_padding cfg bytes.length
    obtain ⟨-, hpadding, -⟩ := typeAlign_spec cfg bytes.length
    have hlength := length_mem_le hformed
    have hcarries := Carries.whole (bytes ++ padding cfg bytes.length)
    have hconverted := cvtChunksToTup_carries cfg info hcarries
      (by rw [List.length_append]; omega)
    exact hconverted.trans (deserialize_mem hformed)
  | heap heap =>
    have hlength := serializedLen_lt cfg hformed
    have hcarries := Carries.whole (heapBytes cfg heap)
    have hconverted := cvtChunksToTup_carries cfg info hcarries
      (by rw [length_heapBytes]; omega)
    have hread := deserialize_heap cfg info hformed []
    rw [List.append_nil] at hread
    refine Eq.trans ?_ (hconverted.trans hread)
    simp only [GenericTuple.direct, DirectTuple.chunk, heapBytes, tupSerHeader, serializedLen,
      tupSerHeaderSize, List.map_cons, List.map_nil]

/-- **The record types are read back from the chunks that were made of them.** -/
theorem converted_typeLists (cache : RecordCache) :
    cvtChunksToTup cfg info ((serializePieces cfg cache.pieces).map TupleChunk.bytes) =
      .ok (.typeLists cache.bytes) := by
  have hcarries := (carries_serializePieces cfg cache.pieces).1
  have hpayload : payload cfg cache.pieces =
      tupSerHeader (tupSerHeaderSize + cache.bytes.length) recordCacheMagic recordCacheMagic ++
        cache.bytes ++ padding cfg cache.bytes.length := by
    simp [RecordCache.pieces, payload]
  have hpadded := length_padding cfg cache.bytes.length
  obtain ⟨-, hpadding, -⟩ := typeAlign_spec cfg cache.bytes.length
  have hlength := cache.length_le
  rw [hpayload] at hcarries
  rw [cvtChunksToTup_carries cfg info hcarries ?_]
  · exact deserialize_typeLists cache _
  · rw [List.length_append, List.length_append, length_tupSerHeader]
    omega

end Hdb.Interconnect.Motion
