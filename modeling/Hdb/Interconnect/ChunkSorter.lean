import Hdb.Interconnect.TupleChunks

/-!
# The receiver sorts the chunks by their senders

A motion node has an entry for each sender, with the chunks of a tuple of which not all have come.
`addChunkToSorter` puts a chunk where its type says. When a tuple is complete it is converted, its
record types are renumbered by the remapper of the connection, and it goes to the tuples that are
ready: those of the sender when the motion keeps the order, and otherwise those of the whole node.
An end of stream is counted, and when all senders have sent theirs nothing more is read.

Main results: `addChunkToSorter_next`, for the next chunk of what a sender serialized, and
`addChunkToSorter_eos`, for its end of stream.
-/

namespace Hdb.Interconnect.Motion

open PacketSend (TupleChunk TupleChunkType)

/-! ## The node -/

/-- What the remapper of a connection does with the record types of the sender, and with a tuple.
The local typmod of a record type is taken as a fixed function of its descriptor. -/
structure Remapper (ρ : Type) where
  handleTypeLists : ρ → List UInt8 → ρ
  checkAndRemap : ρ → GenericTuple → GenericTuple × ρ

structure ChunkSorterEntry where
  init : Bool
  chunkList : List (List UInt8)
  readyTuples : List GenericTuple
  endOfStream : Bool

/-- `MotionNodeEntry`, with the remapper of each connection. -/
structure MotionNodeEntry (ρ : Type) where
  motionNodeId : ℕ
  preserveOrder : Bool
  serTupInfo : SerTupInfo
  numSenders : ℕ
  numStreamEndsRecvd : ℕ
  moreNetWork : Bool
  readyTuples : List GenericTuple
  readyTupleLists : ℕ → ChunkSorterEntry
  remapper : ℕ → ρ

def freshEntry : ChunkSorterEntry := ⟨true, [], [], false⟩

namespace MotionNodeEntry

variable {ρ : Type} (node : MotionNodeEntry ρ) (srcRoute : ℕ)

def setEntry (entry : ChunkSorterEntry) : MotionNodeEntry ρ :=
  { node with readyTupleLists := Function.update node.readyTupleLists srcRoute entry }

def setRemapper (m : ρ) : MotionNodeEntry ρ :=
  { node with remapper := Function.update node.remapper srcRoute m }

/-- The entry of a sender, as `getChunkSorterEntry` gives it. -/
def entry : ChunkSorterEntry :=
  if (node.readyTupleLists srcRoute).init then node.readyTupleLists srcRoute else freshEntry

/-- `htfifo_addtuple`, into the queue that the entry has. -/
def addTuple (tuple : GenericTuple) : MotionNodeEntry ρ :=
  if node.preserveOrder then
    node.setEntry srcRoute { node.readyTupleLists srcRoute with
      readyTuples := (node.readyTupleLists srcRoute).readyTuples ++ [tuple] }
  else { node with readyTuples := node.readyTuples ++ [tuple] }

/-- `getChunkSorterEntry`: the entry is there afterwards. -/
def getChunkSorterEntry : MotionNodeEntry ρ :=
  if (node.readyTupleLists srcRoute).init then node else node.setEntry srcRoute freshEntry

end MotionNodeEntry

/-- The types that the switch of `addChunkToSorter` knows. -/
def typeOfCode (tcType : ℕ) : Option TupleChunkType :=
  [TupleChunkType.whole, .partialStart, .partialMid, .partialEnd, .endOfStream, .empty][tcType]?

variable {ρ : Type} (cfg : PacketConfig) (R : Remapper ρ)

/-- `reconstructTuple`. -/
def reconstructTuple (node : MotionNodeEntry ρ) (srcRoute : ℕ) :
    Except MotionError (MotionNodeEntry ρ) := do
  let entry := node.readyTupleLists srcRoute
  let cleared := node.setEntry srcRoute { entry with chunkList := [] }
  match ← cvtChunksToTup cfg node.serTupInfo entry.chunkList with
  | .typeLists bytes =>
    return cleared.setRemapper srcRoute (R.handleTypeLists (node.remapper srcRoute) bytes)
  | .tuple tuple =>
    let (remapped, m) := R.checkAndRemap (node.remapper srcRoute) tuple
    return (cleared.setRemapper srcRoute m).addTuple srcRoute remapped

/-- `addChunkToSorter`. -/
def addChunkToSorter (node : MotionNodeEntry ρ) (tcItem : List UInt8) (srcRoute : ℕ) :
    Except MotionError (MotionNodeEntry ρ) :=
  let node := node.getChunkSorterEntry srcRoute
  let entry := node.readyTupleLists srcRoute
  let appended := node.setEntry srcRoute { entry with chunkList := entry.chunkList ++ [tcItem] }
  match typeOfCode (getChunkType tcItem) with
  | some .whole | some .empty =>
    if entry.chunkList ≠ [] then .error (.afterPartial .whole srcRoute node.motionNodeId)
    else reconstructTuple cfg R appended srcRoute
  | some .partialStart =>
    if entry.chunkList ≠ [] then .error (.afterPartial .partialStart srcRoute node.motionNodeId)
    else .ok appended
  | some .partialMid =>
    if entry.chunkList = [] then .error (.withoutLeading .partialMid srcRoute node.motionNodeId)
    else .ok appended
  | some .partialEnd =>
    if entry.chunkList = [] then .error (.withoutLeading .partialEnd srcRoute node.motionNodeId)
    else reconstructTuple cfg R appended srcRoute
  | some .endOfStream =>
    if entry.chunkList ≠ [] then .error (.afterPartial .endOfStream srcRoute node.motionNodeId)
    else if entry.endOfStream then .error (.alreadyAtEnd srcRoute node.motionNodeId)
    else
      let ended := node.setEntry srcRoute { entry with endOfStream := true }
      .ok { ended with
        numStreamEndsRecvd := node.numStreamEndsRecvd + 1
        moreNetWork :=
          if node.numStreamEndsRecvd + 1 = node.numSenders then false else node.moreNetWork }
  | none =>
    .error (.unrecognizedType (getChunkType tcItem) tcItem.length srcRoute node.motionNodeId)

/-- The loop of `processIncomingChunks`. -/
def processChunks (srcRoute : ℕ) :
    MotionNodeEntry ρ → List (List UInt8) → Except MotionError (MotionNodeEntry ρ)
  | node, [] => .ok node
  | node, tcItem :: rest =>
    if tcItem.length < tupleChunkHeaderSize then .error (.belowHeader tcItem.length)
    else do
      let node ← addChunkToSorter cfg R node tcItem srcRoute
      processChunks srcRoute node rest

/-- `processIncomingChunks`, for a packet that the transport hands over and `RecvTupleChunk`
splits. -/
def processIncomingChunks (node : MotionNodeEntry ρ) (packet : PacketSend.Packet) (srcRoute : ℕ) :
    Except MotionError (MotionNodeEntry ρ) := do
  let items ← (recvTupleChunk cfg packet.bytes (declaredSize cfg packet.bytes)).mapError .parsing
  processChunks cfg R srcRoute node
    (items.map fun item => readBytes packet.bytes item.inplace.toNat item.chunkLength)

/-! ## What a chunk does to the node -/

namespace MotionNodeEntry

variable (node : MotionNodeEntry ρ) (srcRoute : ℕ)

/-- The node when chunks of a sender are kept, tuples have arrived or its stream has ended. -/
def after (chunkList : List (List UInt8)) (arrived : List GenericTuple) (m : ρ) (ended : Bool) :
    MotionNodeEntry ρ :=
  { node with
    numStreamEndsRecvd := node.numStreamEndsRecvd + if ended then 1 else 0
    moreNetWork :=
      if ended ∧ node.numStreamEndsRecvd + 1 = node.numSenders then false else node.moreNetWork
    readyTuples := node.readyTuples ++ if node.preserveOrder then [] else arrived
    readyTupleLists := Function.update node.readyTupleLists srcRoute
      ⟨true, chunkList,
        (node.entry srcRoute).readyTuples ++ if node.preserveOrder then arrived else [],
        (node.entry srcRoute).endOfStream || ended⟩
    remapper := Function.update node.remapper srcRoute m }

end MotionNodeEntry

/-- What the connection makes of what was converted: the tuple that is ready, and the remapper. -/
def Converted.arrive (m : ρ) : Converted → List GenericTuple × ρ
  | .tuple t => ([(R.checkAndRemap m t).1], (R.checkAndRemap m t).2)
  | .typeLists bytes => ([], R.handleTypeLists m bytes)

variable {cfg R} {node : MotionNodeEntry ρ} {srcRoute : ℕ}

theorem init_entry (node : MotionNodeEntry ρ) (srcRoute : ℕ) :
    (node.entry srcRoute).init = true := by
  unfold MotionNodeEntry.entry
  split_ifs with hinit
  · exact hinit
  · rfl

@[simp] theorem typeOfCode_code (type : TupleChunkType) : typeOfCode type.code = some type := by
  cases type <;> rfl

/-- The entry is as it was, and everything else too. -/
theorem getChunkSorterEntry_eq (node : MotionNodeEntry ρ) (srcRoute : ℕ) :
    node.getChunkSorterEntry srcRoute = node.setEntry srcRoute (node.entry srcRoute) := by
  unfold MotionNodeEntry.getChunkSorterEntry MotionNodeEntry.entry MotionNodeEntry.setEntry
  split_ifs
  · rw [Function.update_eq_self]
  · rfl

@[simp] theorem setEntry_setEntry (node : MotionNodeEntry ρ) (srcRoute : ℕ)
    (entry entry' : ChunkSorterEntry) :
    (node.setEntry srcRoute entry).setEntry srcRoute entry' = node.setEntry srcRoute entry' := by
  unfold MotionNodeEntry.setEntry
  rw [Function.update_idem]

@[simp] theorem readyTupleLists_setEntry (node : MotionNodeEntry ρ) (srcRoute : ℕ)
    (entry : ChunkSorterEntry) : (node.setEntry srcRoute entry).readyTupleLists srcRoute = entry :=
  Function.update_self _ _ _

theorem entry_setEntry_self (node : MotionNodeEntry ρ) (srcRoute : ℕ) {entry : ChunkSorterEntry}
    (hinit : entry.init = true) : (node.setEntry srcRoute entry).entry srcRoute = entry := by
  rw [MotionNodeEntry.entry, readyTupleLists_setEntry, if_pos hinit]

theorem entry_setEntry_of_ne (node : MotionNodeEntry ρ) {srcRoute r : ℕ} (hne : r ≠ srcRoute)
    (entry : ChunkSorterEntry) : (node.setEntry srcRoute entry).entry r = node.entry r := by
  have hlists : (node.setEntry srcRoute entry).readyTupleLists r = node.readyTupleLists r :=
    Function.update_of_ne hne _ _
  rw [MotionNodeEntry.entry, MotionNodeEntry.entry, hlists]

/-- A chunk that is only kept. -/
theorem setEntry_keep (node : MotionNodeEntry ρ) (srcRoute : ℕ) (chunkList : List (List UInt8)) :
    node.setEntry srcRoute { node.entry srcRoute with chunkList := chunkList } =
      node.after srcRoute chunkList [] (node.remapper srcRoute) false := by
  have hinit := init_entry node srcRoute
  unfold MotionNodeEntry.setEntry MotionNodeEntry.after
  simp [hinit]

/-- A chunk that completes what the sender serialized. -/
theorem reconstructTuple_eq (R : Remapper ρ) (srcRoute : ℕ) {chunkList : List (List UInt8)}
    {converted : Converted} (hcvt : cvtChunksToTup cfg node.serTupInfo chunkList = .ok converted) :
    reconstructTuple cfg R
        (node.setEntry srcRoute { node.entry srcRoute with chunkList := chunkList }) srcRoute =
      .ok (node.after srcRoute [] (converted.arrive R (node.remapper srcRoute)).1
        (converted.arrive R (node.remapper srcRoute)).2 false) := by
  have hinit := init_entry node srcRoute
  have hinfo : (node.setEntry srcRoute
      { node.entry srcRoute with chunkList := chunkList }).serTupInfo = node.serTupInfo := rfl
  have hremapper : (node.setEntry srcRoute
      { node.entry srcRoute with chunkList := chunkList }).remapper = node.remapper := rfl
  unfold reconstructTuple
  simp only [readyTupleLists_setEntry, setEntry_setEntry, hinfo, hremapper, hcvt, bind, Except.bind]
  cases converted with
  | typeLists bytes =>
    simp [Converted.arrive, MotionNodeEntry.after, MotionNodeEntry.setEntry,
      MotionNodeEntry.setRemapper, hinit, pure, Except.pure]
  | tuple tuple =>
    cases horder : node.preserveOrder <;>
      simp [Converted.arrive, MotionNodeEntry.after, MotionNodeEntry.setEntry,
        MotionNodeEntry.setRemapper, MotionNodeEntry.addTuple, horder, hinit, pure, Except.pure]

/-- A packet that is split. -/
theorem processIncomingChunks_ok {packet : PacketSend.Packet} {items : List TupleChunkListItem}
    (hsplit : recvTupleChunk cfg packet.bytes (declaredSize cfg packet.bytes) = .ok items) :
    processIncomingChunks cfg R node packet srcRoute = processChunks cfg R srcRoute node
      (items.map fun item => readBytes packet.bytes item.inplace.toNat item.chunkLength) := by
  rw [processIncomingChunks, hsplit]
  rfl

/-! ## The next chunk of a sender -/

/-- The types that chunks have by where they stand. -/
def Shaped (chunks : List TupleChunk) : Prop :=
  ∀ pre c post, chunks = pre ++ c :: post → c.type ∈ match pre, post with
    | [], [] => [TupleChunkType.whole, .empty]
    | [], _ :: _ => [.partialStart]
    | _ :: _, _ :: _ => [.partialMid]
    | _ :: _, [] => [.partialEnd]

/-- Chunks that are typed by where they stand and are converted to a tuple or to record types. -/
structure Reads (cfg : PacketConfig) (info : SerTupInfo) (chunks : List TupleChunk)
    (converted : Converted) : Prop where
  ne_nil : chunks ≠ []
  shaped : Shaped chunks
  cvt : cvtChunksToTup cfg info (chunks.map TupleChunk.bytes) = .ok converted

theorem shaped_singleton {c : TupleChunk} (hc : c.type ∈ [TupleChunkType.whole, .empty]) :
    Shaped [c] := by
  intro pre c' post h
  cases pre with
  | nil =>
    obtain ⟨rfl, rfl⟩ := List.cons.inj h
    exact hc
  | cons x pre =>
    obtain ⟨-, hnil⟩ := List.cons.inj h
    exact absurd hnil.symm (by simp)

theorem Carries.shaped {chunks : List TupleChunk} {content : List UInt8}
    (h : Carries chunks content) : Shaped chunks := by
  cases h with
  | whole => exact shaped_singleton List.mem_cons_self
  | cut d ds e =>
    intro pre c post h
    cases pre with
    | nil =>
      obtain ⟨rfl, rfl⟩ := List.cons.inj h
      cases hbehind : chunksBehind ds e with
      | nil => exact absurd hbehind (by simp [chunksBehind])
      | cons => exact List.mem_singleton_self _
    | cons x pre =>
      obtain ⟨-, hrest⟩ := List.cons.inj h
      cases post using List.reverseRecOn with
      | nil =>
        have hlast := List.append_inj_right' (hrest : ds.map _ ++ [_] = pre ++ [c]) rfl
        rw [← (List.cons.inj hlast).1]
        exact List.mem_singleton_self _
      | append_singleton post last =>
        have hmid : ds.map (⟨.partialMid, ·⟩) = pre ++ c :: post :=
          List.append_inj_left'
            (hrest.trans (by simp) : ds.map _ ++ [_] = (pre ++ c :: post) ++ [last]) rfl
        have hmem : c ∈ ds.map (⟨TupleChunkType.partialMid, ·⟩) := by simp [hmid]
        obtain ⟨d', -, rfl⟩ := List.mem_map.mp hmem
        cases post <;> exact List.mem_singleton_self _

/-- **The next chunk of what a sender serialized** is kept, and the last one completes it. -/
theorem addChunkToSorter_next (R : Remapper ρ) {chunks pre post : List TupleChunk} {c : TupleChunk}
    {converted : Converted} (hreads : Reads cfg node.serTupInfo chunks converted)
    (hchunks : chunks = pre ++ c :: post)
    (hkept : (node.entry srcRoute).chunkList = pre.map TupleChunk.bytes) :
    addChunkToSorter cfg R node c.bytes srcRoute = .ok (match post with
      | [] => node.after srcRoute [] (converted.arrive R (node.remapper srcRoute)).1
          (converted.arrive R (node.remapper srcRoute)).2 false
      | _ :: _ => node.after srcRoute ((pre ++ [c]).map TupleChunk.bytes) []
          (node.remapper srcRoute) false) := by
  have htype := hreads.shaped pre c post hchunks
  have hall : pre.map TupleChunk.bytes ++ [c.bytes] = (pre ++ [c]).map TupleChunk.bytes := by simp
  unfold addChunkToSorter
  simp only [getChunkSorterEntry_eq, readyTupleLists_setEntry, setEntry_setEntry,
    getChunkType_bytes, typeOfCode_code, hkept, hall]
  cases pre with
  | nil =>
    cases post with
    | nil =>
      -- a tuple in one chunk
      have hcvt := hreads.cvt
      rw [hchunks] at hcvt
      have hdone := reconstructTuple_eq R srcRoute hcvt
      simp only [List.mem_cons, List.not_mem_nil, or_false] at htype
      obtain htype | htype := htype <;> rw [htype] <;> exact hdone
    | cons =>
      rw [List.mem_singleton.mp htype]
      exact congrArg Except.ok (setEntry_keep node srcRoute _)
  | cons x pre =>
    cases post with
    | nil =>
      have hcvt := hreads.cvt
      rw [hchunks] at hcvt
      have hdone := reconstructTuple_eq R srcRoute hcvt
      rw [List.mem_singleton.mp htype]
      exact hdone
    | cons =>
      rw [List.mem_singleton.mp htype]
      exact congrArg Except.ok (setEntry_keep node srcRoute _)

def eosChunk : TupleChunk := ⟨.endOfStream, []⟩

/-- **The end of a stream** is counted. -/
theorem addChunkToSorter_eos (hkept : (node.entry srcRoute).chunkList = [])
    (hmore : (node.entry srcRoute).endOfStream = false) :
    addChunkToSorter cfg R node eosChunk.bytes srcRoute =
      .ok (node.after srcRoute [] [] (node.remapper srcRoute) true) := by
  have hinit := init_entry node srcRoute
  have htype : typeOfCode (getChunkType eosChunk.bytes) = some .endOfStream := by
    rw [getChunkType_bytes]
    rfl
  unfold addChunkToSorter
  simp only [getChunkSorterEntry_eq, readyTupleLists_setEntry, setEntry_setEntry, htype, hkept,
    hmore]
  by_cases hlast : node.numStreamEndsRecvd + 1 = node.numSenders <;>
    simp [MotionNodeEntry.after, MotionNodeEntry.setEntry, hinit, hlast]

end Hdb.Interconnect.Motion
