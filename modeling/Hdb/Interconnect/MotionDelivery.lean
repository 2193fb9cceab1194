import Hdb.Interconnect.MotionNode

/-!
# Motion delivers

The senders of a motion and its receiver. A sender writes its tuples into packets, its record types
where it has new ones, and at the end an end of stream. The transport hands over the packets of a
connection whole and in their order, those of different connections in any order. The receiver asks
for the next tuple, of a sender when the motion keeps the order and of any otherwise, and is given
packets until there is one.

Main results: `motion_delivers`. No error is raised and nothing is read that was not sent, the
receiver is given the tuples of each sender unchanged and in order, and it is told of the end when
it has been given all of them. `motion_returns`: it does not wait when all packets have come. Where
`TUPLE_CHUNK_ALIGN` is 4, the data of heap tuples has to be aligned for both.
-/

namespace Hdb.Interconnect.Motion

open PacketSend (SendConn Packet Put TupleChunk SendOk gpMaxTupleChunkSize)

/-! ## The senders -/

/-- For each packet that is sent in a call, what is in the header and in the buffer that follows. -/
abbrev Buffers := ℕ → (ℕ → UInt8) × (ℕ → UInt8)

variable {ρ : Type} (cfg : PacketConfig) (R : Remapper ρ) (info : SerTupInfo)

/-- `SendTupleChunkToAMS`, for one connection. -/
def sendChunks (buffers : Buffers) : ℕ → List TupleChunk → SendConn → SendConn
  | _, [], conn => conn
  | k, chunk :: chunks, conn => sendChunks buffers (k + 1) chunks
      (PacketSend.sendChunk cfg (buffers k).1 (buffers k).2 chunk conn)

/-- `SendTuple`, with the item that was sent and its chunks. -/
def sendTuple (row : Row) (broadcast : Bool) (buffers : Buffers) (conn : SendConn) :
    SendConn × Item × List TupleChunk :=
  match serializeTuple cfg info row.tuple
      (if broadcast then none else some (PacketSend.prilen cfg conn)) with
  | .direct chunk behind =>
    (PacketSend.writeDirect chunk behind conn,
      if chunk.type = .empty then .emptyRow else .row row, [chunk])
  | .chunks tcList => (sendChunks cfg buffers 0 tcList conn, .row row, tcList)

/-- `CheckAndSendRecordCache`, when there are new record types. -/
def sendRecordCache (cache : RecordCache) (buffers : Buffers) (conn : SendConn) :
    SendConn × Item × List TupleChunk :=
  (sendChunks cfg buffers 0 (serializePieces cfg cache.pieces) conn, .typeLists cache,
    serializePieces cfg cache.pieces)

/-- `SendEndOfStream`, and the packet is sent. -/
def sendEos (buffers : Buffers) (conn : SendConn) : SendConn :=
  PacketSend.flushBuffer cfg (buffers 1).1 (buffers 1).2
    (PacketSend.sendChunk cfg (buffers 0).1 (buffers 0).2 eosChunk conn)

/-! ## The system -/

/-- The receiving node, the connections of its senders, and how many packets of each have been
handed over. `streams` and `consumer` are the history. -/
structure System (ρ : Type) where
  node : MotionNodeEntry ρ
  conns : ℕ → SendConn
  received : ℕ → ℕ
  streams : ℕ → Stream
  consumer : Consumer

inductive RecvResult where
  | tuple (tuple : GenericTuple)
  | endOfStream
  | waiting

namespace System

variable (s : System ρ) (r : ℕ)

/-- What a sender sent is on its way. -/
def send (sent : SendConn × Item × List TupleChunk) : System ρ :=
  { s with
    conns := Function.update s.conns r sent.1
    streams := Function.update s.streams r ((s.streams r).ship sent.2.1 sent.2.2) }

/-- The end of its stream is. -/
def sendEos (buffers : Buffers) : System ρ :=
  { s with
    conns := Function.update s.conns r (Motion.sendEos cfg buffers (s.conns r))
    streams := Function.update s.streams r { s.streams r with ended := true } }

def flush (header fresh : ℕ → UInt8) : System ρ :=
  { s with
    conns := Function.update s.conns r (PacketSend.flushBuffer cfg header fresh (s.conns r)) }

/-- The next packet of a connection. -/
def nextPacket : Option Packet := (s.conns r).sent[s.received r]?

/-- A tuple is taken from the queue of a sender. -/
def takeFrom (tuple : GenericTuple) (ready : List GenericTuple) : System ρ :=
  { s with
    node := s.node.setEntry r { s.node.entry r with readyTuples := ready }
    consumer := s.consumer.takeFrom r tuple }

/-- A tuple is taken from the queue of the node. -/
def takeAny (tuple : GenericTuple) (ready : List GenericTuple) : System ρ :=
  { s with
    node := { s.node with readyTuples := ready }
    consumer := s.consumer.takeAny tuple }

def endFrom : System ρ :=
  { s with consumer := { s.consumer with
      endedFrom := Function.update s.consumer.endedFrom r true } }

def endAny : System ρ := { s with consumer := { s.consumer with ended := true } }

/-- A packet of the connection is processed. -/
def receive (node : MotionNodeEntry ρ) : System ρ :=
  { s with node := node, received := Function.update s.received r (s.received r + 1) }

end System

/-- `RecvTupleFrom` a sender, with the packets of the sender that come meanwhile. -/
def recvTupleFrom (srcRoute : ℕ) : ℕ → System ρ → Except MotionError (RecvResult × System ρ)
  | n, s =>
    match (s.node.entry srcRoute).readyTuples with
    | tuple :: ready => .ok (.tuple tuple, s.takeFrom srcRoute tuple ready)
    | [] =>
      if (s.node.entry srcRoute).endOfStream then .ok (.endOfStream, s.endFrom srcRoute)
      else match n with
        | 0 => .ok (.waiting, s)
        | n + 1 => match s.nextPacket srcRoute with
          | none => .ok (.waiting, s)
          | some packet =>
            (processIncomingChunks cfg R s.node packet srcRoute).bind fun node =>
              recvTupleFrom srcRoute n (s.receive srcRoute node)

/-- `RecvTupleFrom` any sender, with the connections that packets come from meanwhile. -/
def recvTupleAny : List ℕ → System ρ → Except MotionError (RecvResult × System ρ)
  | routes, s =>
    match s.node.readyTuples with
    | tuple :: ready => .ok (.tuple tuple, s.takeAny tuple ready)
    | [] =>
      if s.node.moreNetWork = false then .ok (.endOfStream, s.endAny)
      else match routes with
        | [] => .ok (.waiting, s)
        | r :: routes => match s.nextPacket r with
          | none => recvTupleAny routes s
          | some packet =>
            (processIncomingChunks cfg R s.node packet r).bind fun node =>
              recvTupleAny routes (s.receive r node)

inductive Action where
  | sendTuple (r : ℕ) (row : Row) (broadcast : Bool) (buffers : Buffers)
  | sendRecordCache (r : ℕ) (cache : RecordCache) (buffers : Buffers)
  | flush (r : ℕ) (header fresh : ℕ → UInt8)
  | sendEos (r : ℕ) (buffers : Buffers)
  | recvFrom (r : ℕ) (packets : ℕ)
  | recvAny (routes : List ℕ)

/-- A sender that has ended its stream sends nothing more. The receiver names a sender if and only
if the motion keeps the order. -/
def step (senders : Finset ℕ) (s : System ρ) : Action → Except MotionError (System ρ)
  | .sendTuple r row broadcast buffers =>
    .ok (if r ∈ senders ∧ (s.streams r).ended = false then
      s.send r (sendTuple cfg info row broadcast buffers (s.conns r)) else s)
  | .sendRecordCache r cache buffers =>
    .ok (if r ∈ senders ∧ (s.streams r).ended = false then
      s.send r (sendRecordCache cfg cache buffers (s.conns r)) else s)
  | .flush r header fresh =>
    .ok (if r ∈ senders ∧ (s.streams r).ended = false then s.flush cfg r header fresh else s)
  | .sendEos r buffers =>
    .ok (if r ∈ senders ∧ (s.streams r).ended = false then s.sendEos cfg r buffers else s)
  | .recvFrom r packets =>
    if s.node.preserveOrder then (recvTupleFrom cfg R r packets s).map Prod.snd else .ok s
  | .recvAny routes =>
    if s.node.preserveOrder then .ok s else (recvTupleAny cfg R routes s).map Prod.snd

/-- `UpdateMotionLayerNode`, when `UpdateMotionExpectedReceivers` has counted the senders. -/
def startNode (motionNodeId : ℕ) (order : Bool) (senders : Finset ℕ) (m : ρ) :
    MotionNodeEntry ρ where
  motionNodeId := motionNodeId
  preserveOrder := order
  serTupInfo := info
  numSenders := senders.card
  numStreamEndsRecvd := 0
  moreNetWork := true
  readyTuples := []
  readyTupleLists _ := ⟨false, [], [], false⟩
  remapper _ := m

def startSystem (motionNodeId : ℕ) (order : Bool) (senders : Finset ℕ) (m : ρ)
    (pBuff : ℕ → ℕ → UInt8) : System ρ where
  node := startNode info motionNodeId order senders m
  conns r := .start cfg (pBuff r)
  received _ := 0
  streams _ := .start
  consumer := .start

/-! ## Alignment -/

/-- What a row adds to a message is aligned if it can be written straight into the buffer, because
it fits into a message. -/
def Row.Aligned (row : Row) : Prop :=
  (row.tuple.direct.chunk cfg).1.length ≤ cfg.gpMaxPacketSize - cfg.headerSize →
    cfg.tupleChunkAlign ∣ (row.tuple.direct.chunk cfg).1.length

/-- The rows that are not broadcast are aligned. -/
def Action.Aligned : Action → Prop
  | .sendTuple _ row broadcast _ => broadcast = false → row.Aligned cfg
  | _ => True

theorem tupleChunkAlign_dvd : cfg.tupleChunkAlign ∣ 4 := by
  obtain halign | halign := cfg.align_eq
  · rw [halign]
    decide
  · rw [halign]

/-- A memtuple is padded before it is written. -/
theorem Row.aligned_mem (row : Row) {bytes : List UInt8} (hmem : row.tuple = .mem bytes) :
    row.Aligned cfg := by
  obtain ⟨-, -, hdvd⟩ := typeAlign_spec cfg bytes.length
  have hlength : (bytes ++ PacketSend.padding cfg bytes.length).length =
      MemTuple.typeAlign cfg.tupleChunkAlign bytes.length := by
    rw [List.length_append, length_padding]
  rw [Row.Aligned, hmem]
  exact fun _ => Nat.dvd_add (tupleChunkAlign_dvd cfg) (hlength ▸ hdvd)

/-- The data of a heap tuple is not padded. -/
theorem Row.aligned_heap (row : Row) {tuple : HeapTuple} (hheap : row.tuple = .heap tuple)
    (hdata : cfg.tupleChunkAlign ∣ tuple.data.length) : row.Aligned cfg := by
  obtain ⟨-, -, hdvd⟩ := typeAlign_spec cfg tuple.bits.length
  have hfront : cfg.tupleChunkAlign ∣
      12 + MemTuple.typeAlign cfg.tupleChunkAlign tuple.bits.length :=
    Nat.dvd_add ((tupleChunkAlign_dvd cfg).trans (by decide)) hdvd
  have hlength : (row.tuple.direct.chunk cfg).1.length =
      12 + MemTuple.typeAlign cfg.tupleChunkAlign tuple.bits.length + tuple.data.length := by
    rw [hheap]
    simp only [GenericTuple.direct, PacketSend.DirectTuple.chunk, PacketSend.TupleChunk.length,
      tupleChunkHeaderSize, List.length_append, length_toLittleEndian, length_padding]
    omega
  rw [Row.Aligned, hlength]
  exact fun _ => (Nat.dvd_add_right hfront).mpr hdata

/-! ## What is on its way -/

/-- The chunks of a connection that have not been handed over. -/
def pendingOf (conn : SendConn) (n : ℕ) : List TupleChunk :=
  ((conn.sent.drop n).flatMap (·.puts) ++ conn.puts).map (·.chunk)

/-- What was put into the packets of a connection is aligned. -/
structure AlignedConn (cfg : PacketConfig) (conn : SendConn) : Prop where
  puts : ∀ put ∈ conn.puts, cfg.tupleChunkAlign ∣ put.length
  sent : ∀ packet ∈ conn.sent, ∀ put ∈ packet.puts, cfg.tupleChunkAlign ∣ put.length

/-- The chunks were sent behind what is pending, and the connection is as it should be. -/
structure Sends (cfg : PacketConfig) (conn conn' : SendConn) (chunks : List TupleChunk) : Prop where
  ok : SendOk cfg conn'
  aligned : AlignedConn cfg conn → AlignedConn cfg conn'
  length_le : conn.sent.length ≤ conn'.sent.length
  pending : ∀ n ≤ conn.sent.length, pendingOf conn' n = pendingOf conn n ++ chunks

variable {cfg R info} {conn conn' conn'' : SendConn} {chunks chunks' : List TupleChunk}

theorem alignedConn_start (cfg : PacketConfig) (pBuff : ℕ → UInt8) :
    AlignedConn cfg (.start cfg pBuff) :=
  ⟨List.forall_mem_nil _, List.forall_mem_nil _⟩

theorem AlignedConn.flush (h : AlignedConn cfg conn) (header fresh : ℕ → UInt8) :
    AlignedConn cfg (PacketSend.flushBuffer cfg header fresh conn) where
  puts := List.forall_mem_nil _
  sent := List.forall_mem_append.mpr ⟨h.sent, List.forall_mem_singleton.mpr h.puts⟩

theorem AlignedConn.put (h : AlignedConn cfg conn) (chunk : TupleChunk) (pBuff : ℕ → UInt8)
    (msgSize : ℕ) {length : ℕ} (hdvd : cfg.tupleChunkAlign ∣ length) :
    AlignedConn cfg { conn with
      pBuff := pBuff, msgSize := msgSize, puts := conn.puts ++ [⟨chunk, length⟩] } where
  puts := List.forall_mem_append.mpr ⟨h.puts, List.forall_mem_singleton.mpr hdvd⟩
  sent := h.sent

theorem Sends.trans (h : Sends cfg conn conn' chunks) (h' : Sends cfg conn' conn'' chunks') :
    Sends cfg conn conn'' (chunks ++ chunks') where
  ok := h'.ok
  aligned := h'.aligned ∘ h.aligned
  length_le := h.length_le.trans h'.length_le
  pending n hn := by
    rw [h'.pending n (hn.trans h.length_le), h.pending n hn, List.append_assoc]

theorem sends_flush (hok : SendOk cfg conn) (header fresh : ℕ → UInt8) :
    Sends cfg conn (PacketSend.flushBuffer cfg header fresh conn) [] where
  ok := hok.flushBuffer header fresh
  aligned h := h.flush header fresh
  length_le := by simp [PacketSend.flushBuffer]
  pending n hn := by
    simp [pendingOf, PacketSend.flushBuffer, List.drop_append_of_le_length hn]

theorem pendingOf_append (chunk : TupleChunk) (pBuff : ℕ → UInt8) (msgSize length n : ℕ) :
    pendingOf { conn with
        pBuff := pBuff, msgSize := msgSize, puts := conn.puts ++ [⟨chunk, length⟩] } n =
      pendingOf conn n ++ [chunk] := by
  simp [pendingOf]

theorem sends_direct (hok : SendOk cfg conn) {chunk : TupleChunk} (behind : List UInt8)
    (hfits : conn.msgSize + chunk.length ≤ cfg.gpMaxPacketSize)
    (hdvd : cfg.tupleChunkAlign ∣ chunk.length) :
    Sends cfg conn (PacketSend.writeDirect chunk behind conn) [chunk] where
  ok := hok.writeDirect behind hfits
  aligned h := h.put chunk _ _ hdvd
  length_le := le_refl _
  pending _ _ := pendingOf_append _ _ _ _ _

theorem sends_chunk (hok : SendOk cfg conn) (header fresh : ℕ → UInt8) {chunk : TupleChunk}
    (hlength : chunk.length ≤ gpMaxTupleChunkSize cfg) :
    Sends cfg conn (PacketSend.sendChunk cfg header fresh chunk conn) [chunk] := by
  have hstep : PacketSend.sendStep cfg conn (.sendChunk header fresh chunk) =
      some (PacketSend.sendChunk cfg header fresh chunk conn) := if_pos hlength
  have hok' := hok.step hstep
  have hflush := sends_flush hok header fresh
  obtain ⟨-, -, hdvd⟩ := typeAlign_spec cfg chunk.length
  unfold PacketSend.sendChunk at hok' ⊢
  split_ifs at hok' ⊢ with hfull
  · refine ⟨hok', fun h => (hflush.aligned h).put chunk _ _ hdvd, hflush.length_le, fun n hn => ?_⟩
    refine (pendingOf_append _ _ _ _ _).trans ?_
    rw [hflush.pending n hn, List.append_nil]
  · exact ⟨hok', fun h => h.put chunk _ _ hdvd, le_refl _, fun n _ => pendingOf_append _ _ _ _ _⟩

theorem sends_chunks (hok : SendOk cfg conn) (buffers : Buffers) (k : ℕ)
    (hlength : ∀ chunk ∈ chunks, chunk.length ≤ gpMaxTupleChunkSize cfg) :
    Sends cfg conn (sendChunks cfg buffers k chunks conn) chunks := by
  induction chunks generalizing conn k with
  | nil => exact ⟨hok, id, le_refl _, fun n _ => (List.append_nil _).symm⟩
  | cons chunk chunks ih =>
    have hfirst := sends_chunk hok (buffers k).1 (buffers k).2 (hlength chunk List.mem_cons_self)
    have hrest := ih hfirst.ok (k + 1) fun c hc => hlength c (List.mem_cons_of_mem _ hc)
    exact hfirst.trans hrest

theorem reads_pieces {pieces : List (List UInt8 × Bool)} {converted : Converted}
    (hcvt : cvtChunksToTup cfg info ((serializePieces cfg pieces).map TupleChunk.bytes) =
      .ok converted) : Reads cfg info (serializePieces cfg pieces) converted where
  ne_nil hnil := by
    rw [hnil, List.map_nil, cvtChunksToTup] at hcvt
    cases hcvt
  shaped := (carries_serializePieces cfg pieces).1.shaped
  cvt := hcvt

/-- There is as much room as the buffer has, or none. -/
theorem room_le {prilen : Option ℕ} {n : ℕ} (hpos : 0 < n)
    (hle : n ≤ (prilen.filter (tupleChunkHeaderSize < ·)).getD 0) : ∃ k, prilen = some k ∧
    n ≤ k := by
  cases prilen with
  | none =>
    rw [Option.filter_none, Option.getD_none] at hle
    omega
  | some k =>
    rw [Option.filter_some] at hle
    split_ifs at hle
    · exact ⟨k, rfl, hle⟩
    · rw [Option.getD_none] at hle
      omega

/-- What `SerializeTuple` writes into the buffer fits there and is read back. -/
theorem serializeTuple_direct {row : Row} {prilen : Option ℕ} {chunk : TupleChunk}
    {behind : List UInt8} (h : serializeTuple cfg info row.tuple prilen = .direct chunk behind) :
    (∃ k, prilen = some k ∧ chunk.length ≤ k) ∧
      (∀ k, prilen = some k → k ≤ cfg.gpMaxPacketSize - cfg.headerSize → row.Aligned cfg →
        cfg.tupleChunkAlign ∣ chunk.length) ∧
      Reads cfg info [chunk]
        ((if chunk.type = .empty then Item.emptyRow else .row row).converted cfg info) := by
  unfold serializeTuple at h
  simp only at h
  split_ifs at h with hempty hfits
  · cases h
    obtain ⟨hnatts, hroom⟩ := hempty
    refine ⟨?_, fun _ _ _ _ => tupleChunkAlign_dvd cfg, List.cons_ne_nil _ _,
      shaped_singleton (by decide), ?_⟩
    · obtain ⟨k, rfl, -⟩ := room_le Nat.zero_lt_one hroom
      rw [Option.filter_some] at hroom
      split_ifs at hroom with hheader
      · rw [decide_eq_true_eq] at hheader
        exact ⟨k, rfl, hheader.le⟩
      · exact absurd hroom (lt_irrefl 0)
    · rw [List.map_singleton, cvtChunksToTup, getChunkType_bytes, if_neg (by decide), if_pos rfl,
        if_pos hnatts]
      rfl
  · cases h
    have hwhole : (row.tuple.direct.chunk cfg).1.type = .whole := by
      cases row.tuple <;> rfl
    have hroom := room_le (Nat.add_pos_left (by decide) _) hfits
    refine ⟨hroom, fun k hk hle haligned => ?_, List.cons_ne_nil _ _,
      shaped_singleton (by rw [hwhole]; decide), ?_⟩
    · obtain ⟨k', hk', hfit⟩ := hroom
      obtain rfl := Option.some.inj (hk.symm.trans hk')
      exact haligned (hfit.trans hle)
    rw [List.map_singleton, if_neg (by rw [hwhole]; decide)]
    exact converted_direct row

theorem serializeTuple_chunks {row : Row} {prilen : Option ℕ} {tcList : List TupleChunk}
    (h : serializeTuple cfg info row.tuple prilen = .chunks tcList) :
    tcList = serializePieces cfg (row.tuple.pieces cfg) := by
  unfold serializeTuple at h
  simp only at h
  split_ifs at h
  cases h
  rfl

/-- **A tuple that is sent** is on its way as one item. -/
theorem sends_sendTuple (info : SerTupInfo) (hok : SendOk cfg conn) {row : Row} {broadcast : Bool}
    (haligned : broadcast = false → row.Aligned cfg) (buffers : Buffers) :
    Sends cfg conn (sendTuple cfg info row broadcast buffers conn).1
        (sendTuple cfg info row broadcast buffers conn).2.2 ∧
      Reads cfg info (sendTuple cfg info row broadcast buffers conn).2.2
        ((sendTuple cfg info row broadcast buffers conn).2.1.converted cfg info) := by
  unfold sendTuple
  cases hserialized : serializeTuple cfg info row.tuple
      (if broadcast then none else some (PacketSend.prilen cfg conn)) with
  | direct chunk behind =>
    obtain ⟨⟨k, hk, hle⟩, hdvd, hreads⟩ := serializeTuple_direct hserialized
    -- what is broadcast is not written into a buffer
    cases broadcast with
    | true => cases hk
    | false =>
      have hroom : cfg.gpMaxPacketSize - conn.msgSize = k := Option.some.inj hk
      have hsize := hok.size_le
      have hmost := Nat.sub_le_sub_left hok.buffered.le cfg.gpMaxPacketSize
      exact ⟨sends_direct hok behind (by omega)
        (hdvd k hk (hroom ▸ hmost) (haligned rfl)), hreads⟩
  | chunks tcList =>
    obtain rfl := serializeTuple_chunks hserialized
    exact ⟨sends_chunks hok buffers 0 (carries_serializePieces cfg _).2,
      reads_pieces (converted_row row)⟩

/-- **Record types that are sent** are on their way as one item. -/
theorem sends_sendRecordCache (info : SerTupInfo) (hok : SendOk cfg conn) (cache : RecordCache)
    (buffers : Buffers) :
    Sends cfg conn (sendRecordCache cfg cache buffers conn).1
        (sendRecordCache cfg cache buffers conn).2.2 ∧
      Reads cfg info (sendRecordCache cfg cache buffers conn).2.2
        ((sendRecordCache cfg cache buffers conn).2.1.converted cfg info) :=
  ⟨sends_chunks hok buffers 0 (carries_serializePieces cfg _).2,
    reads_pieces (converted_typeLists cache)⟩

/-- **The end of a stream** is on its way, and nothing stays in the buffer. -/
theorem sends_sendEos (hok : SendOk cfg conn) (buffers : Buffers) :
    Sends cfg conn (sendEos cfg buffers conn) [eosChunk] ∧
      (sendEos cfg buffers conn).puts = [] := by
  have hlength : eosChunk.length ≤ gpMaxTupleChunkSize cfg :=
    (by decide : 4 ≤ 444).trans (gpMaxTupleChunkSize_ge cfg)
  have hsent := sends_chunk hok (buffers 0).1 (buffers 0).2 hlength
  exact ⟨hsent.trans (sends_flush hsent.ok (buffers 1).1 (buffers 1).2), rfl⟩

/-! ## The invariant -/

variable (cfg R info)

/-- Each connection is as it should be, and the node has what was handed over. A receiver that was
told of the end has everything, and nothing stays in the buffer of a sender that has ended. -/
structure SystemInv (order : Bool) (senders : Finset ℕ) (m : ρ) (s : System ρ) : Prop where
  conn : ∀ r, SendOk cfg (s.conns r)
  aligned : ∀ r, AlignedConn cfg (s.conns r)
  received_le : ∀ r, s.received r ≤ (s.conns r).sent.length
  node : NodeInv cfg R info m order senders s.streams
    (fun r => pendingOf (s.conns r) (s.received r)) s.consumer s.node
  flushed : ∀ r, (s.streams r).ended = true → (s.conns r).puts = []
  endedFrom : order = true → ∀ r, s.consumer.endedFrom r = true →
    (s.streams r).ended = true ∧
      s.consumer.takenFrom r = (outcome cfg R info m (s.streams r).items).1
  ended : order = false → s.consumer.ended = true →
    s.node.moreNetWork = false ∧ s.node.readyTuples = []

variable {cfg R info} {order : Bool} {senders : Finset ℕ} {m : ρ} {s : System ρ} {r : ℕ}

/-- What one connection sends. -/
theorem pendingOf_update (conns : ℕ → SendConn) (received : ℕ → ℕ) (r : ℕ) (conn : SendConn) :
    (fun r' => pendingOf (Function.update conns r conn r') (received r')) =
      Function.update (fun r' => pendingOf (conns r') (received r')) r
        (pendingOf conn (received r)) := by
  funext r'
  by_cases hr : r' = r
  · subst hr
    rw [Function.update_self, Function.update_self]
  · rw [Function.update_of_ne hr, Function.update_of_ne hr]

/-- **A sender whose stream is open sends.** -/
theorem SystemInv.sends (h : SystemInv cfg R info order senders m s) (hmem : r ∈ senders)
    (hopen : (s.streams r).ended = false) {conn' : SendConn} {chunks : List TupleChunk}
    (hsends : Sends cfg (s.conns r) conn' chunks) {stream' : Stream}
    (hflushed : stream'.ended = true → conn'.puts = [])
    (hnext : ∀ pending arrived entry remapper,
      Progress cfg R info m (s.streams r) pending arrived entry remapper →
        Progress cfg R info m stream' (pending ++ chunks) arrived entry remapper) :
    SystemInv cfg R info order senders m { s with
      conns := Function.update s.conns r conn', streams :=
        Function.update s.streams r stream' } where
  conn := (Function.forall_update_iff s.conns fun _ conn => SendOk cfg conn).mpr
    ⟨hsends.ok, fun r' _ => h.conn r'⟩
  aligned := (Function.forall_update_iff s.conns fun _ conn => AlignedConn cfg conn).mpr
    ⟨hsends.aligned (h.aligned r), fun r' _ => h.aligned r'⟩
  received_le := (Function.forall_update_iff s.conns fun r' conn =>
      s.received r' ≤ conn.sent.length).mpr
    ⟨(h.received_le r).trans hsends.length_le, fun r' _ => h.received_le r'⟩
  node := by
    have hpending := hsends.pending _ (h.received_le r)
    have hnode := h.node.update hmem fun arrived => hnext _ arrived _ _
    rw [← hpending, ← pendingOf_update] at hnode
    exact hnode
  flushed r' hr' := by
    by_cases hr : r' = r
    · subst hr
      simp only [Function.update_self] at hr' ⊢
      exact hflushed hr'
    · simp only [Function.update_of_ne hr] at hr' ⊢
      exact h.flushed r' hr'
  endedFrom horder r' hr' := by
    have hold := h.endedFrom horder r' hr'
    by_cases hr : r' = r
    · subst hr
      rw [hopen] at hold
      exact absurd hold.1 Bool.false_ne_true
    · simpa [Function.update_of_ne hr] using hold
  ended := h.ended

/-! ## The receiver -/

theorem pendingOf_received (conns : ℕ → SendConn) (received : ℕ → ℕ) (r n : ℕ) :
    (fun r' => pendingOf (conns r') (Function.update received r n r')) =
      Function.update (fun r' => pendingOf (conns r') (received r')) r (pendingOf (conns r) n) := by
  funext r'
  by_cases hr : r' = r
  · subst hr
    rw [Function.update_self, Function.update_self]
  · rw [Function.update_of_ne hr, Function.update_of_ne hr]

/-- The next packet has the chunks that are pending first. -/
theorem pendingOf_next {packet : Packet} (hnext : s.nextPacket r = some packet) :
    pendingOf (s.conns r) (s.received r) =
      packet.puts.map (·.chunk) ++ pendingOf (s.conns r) (s.received r + 1) := by
  obtain ⟨hlt, hpacket⟩ := List.getElem?_eq_some_iff.mp hnext
  rw [pendingOf, List.drop_eq_getElem_cons hlt, hpacket, List.flatMap_cons, List.append_assoc,
    List.map_append]
  rfl

/-- **A packet is processed** without an error. -/
theorem SystemInv.receive (h : SystemInv cfg R info order senders m s)
    (hopen : order = false → s.consumer.ended = false)
    {packet : Packet} (hnext : s.nextPacket r = some packet) :
    ∃ node, processIncomingChunks cfg R s.node packet r = .ok node ∧
      SystemInv cfg R info order senders m (s.receive r node) := by
  obtain ⟨hlt, hpacket⟩ := List.getElem?_eq_some_iff.mp hnext
  have hpacketOk := (h.conn r).sent packet (hpacket ▸ List.getElem_mem hlt)
  have hsplits : PacketSend.Splits cfg packet :=
    (PacketSend.splits_iff hpacketOk).mpr
      ((h.aligned r).sent packet (hpacket ▸ List.getElem_mem hlt))
  obtain ⟨node, hprocess, hnode⟩ := h.node.processChunks (pendingOf_next hnext)
  refine ⟨node, ?_, h.conn, h.aligned, fun r' => ?_, ?_, h.flushed, h.endedFrom,
    fun horder (hended : s.consumer.ended = true) => ?_⟩
  · rw [processIncomingChunks_ok hsplits.1, hsplits.2, ← hprocess, List.map_map]
    rfl
  · by_cases hr : r' = r
    · subst hr
      simpa [System.receive] using Nat.succ_le_of_lt hlt
    · simpa [System.receive, Function.update_of_ne hr] using h.received_le r'
  · rw [← pendingOf_received] at hnode
    exact hnode
  · have hopen' : s.consumer.ended = false := hopen horder
    rw [hopen'] at hended
    cases hended

theorem SystemInv.takeFrom (h : SystemInv cfg R info true senders m s) {tuple : GenericTuple}
    {ready : List GenericTuple} (hready : (s.node.entry r).readyTuples = tuple :: ready) :
    SystemInv cfg R info true senders m (s.takeFrom r tuple ready) where
  conn := h.conn
  aligned := h.aligned
  received_le := h.received_le
  node := h.node.takeFrom hready
  flushed := h.flushed
  endedFrom _ r' hr' := by
    have hold := h.endedFrom rfl r' hr'
    by_cases hr : r' = r
    · -- all of this sender was taken, so none of it can be ready
      subst hr
      have hbegins := (h.node.takenFrom_begins r').length_le
      rw [hready, ← hold.2, List.length_append, List.length_cons] at hbegins
      omega
    · have htaken : (s.consumer.takeFrom r tuple).takenFrom r' = s.consumer.takenFrom r' :=
        Function.update_of_ne hr _ _
      exact ⟨hold.1, htaken.trans hold.2⟩
  ended hfalse := absurd hfalse (by decide)

theorem SystemInv.endFrom (h : SystemInv cfg R info true senders m s)
    (hready : (s.node.entry r).readyTuples = []) (heos : (s.node.entry r).endOfStream = true) :
    SystemInv cfg R info true senders m (s.endFrom r) where
  conn := h.conn
  aligned := h.aligned
  received_le := h.received_le
  node := ⟨h.node.info_eq, h.node.order_eq, h.node.arrived, h.node.outside, h.node.numSenders,
    h.node.ends, h.node.more⟩
  flushed := h.flushed
  endedFrom _ r' hr' := by
    by_cases hr : r' = r
    · subst hr
      have hall := h.node.takenFrom_eq heos
      rw [hready, List.append_nil] at hall
      exact hall
    · have hold : s.consumer.endedFrom r' = true := by
        rw [← hr']
        exact (Function.update_of_ne hr _ _).symm
      exact h.endedFrom rfl r' hold
  ended hfalse := absurd hfalse (by decide)

theorem SystemInv.takeAny (h : SystemInv cfg R info false senders m s) {tuple : GenericTuple}
    {ready : List GenericTuple} (hready : s.node.readyTuples = tuple :: ready) :
    SystemInv cfg R info false senders m (s.takeAny tuple ready) where
  conn := h.conn
  aligned := h.aligned
  received_le := h.received_le
  node := h.node.takeAny hready
  flushed := h.flushed
  endedFrom hfalse := absurd hfalse (by decide)
  ended _ hended := by
    have hnone := (h.ended rfl hended).2
    rw [hready] at hnone
    cases hnone

theorem SystemInv.endAny (h : SystemInv cfg R info false senders m s)
    (hready : s.node.readyTuples = []) (hmore : s.node.moreNetWork = false) :
    SystemInv cfg R info false senders m s.endAny where
  conn := h.conn
  aligned := h.aligned
  received_le := h.received_le
  node := ⟨h.node.info_eq, h.node.order_eq, h.node.arrived, h.node.outside, h.node.numSenders,
    h.node.ends, h.node.more⟩
  flushed := h.flushed
  endedFrom hfalse := absurd hfalse (by decide)
  ended _ _ := ⟨hmore, hready⟩

/-! ## What can still come -/

def RecvResult.IsWaiting : RecvResult → Prop
  | .waiting => True
  | _ => False

/-- How many packets of a connection have not been handed over. -/
def System.inFlight (s : System ρ) (r : ℕ) : ℕ := (s.conns r).sent.length - s.received r

theorem nextPacket_none (hnone : s.nextPacket r = none) : s.inFlight r = 0 :=
  Nat.sub_eq_zero_of_le (List.getElem?_eq_none_iff.mp hnone)

/-- Of a sender that has ended its stream, the node has its end when all packets have come. -/
theorem SystemInv.at_end (h : SystemInv cfg R info order senders m s)
    (hended : (s.streams r).ended = true) (hnone : s.inFlight r = 0) :
    (s.node.entry r).endOfStream = true := by
  obtain ⟨arrived, hprogress, -⟩ := h.node.arrived
  have hpending : pendingOf (s.conns r) (s.received r) = [] := by
    rw [pendingOf, h.flushed r hended, List.drop_eq_nil_of_le (Nat.sub_eq_zero_iff_le.mp hnone)]
    rfl
  have hroute := hprogress r
  rw [hpending] at hroute
  exact hroute.at_end hended

theorem inFlight_receive (s : System ρ) (r : ℕ) (node : MotionNodeEntry ρ) (r' : ℕ) :
    (s.receive r node).inFlight r' = if r' = r then s.inFlight r - 1 else s.inFlight r' := by
  change (s.conns r').sent.length - Function.update s.received r (s.received r + 1) r' = _
  unfold System.inFlight
  split_ifs with hr
  · subst hr
    rw [Function.update_self, Nat.sub_sub]
  · rw [Function.update_of_ne hr]

/-- **`RecvTupleFrom` a sender** raises no error, and does not wait when all packets of a sender
that has ended its stream can come. -/
theorem recvTupleFrom_spec (h : SystemInv cfg R info true senders m s) (n : ℕ) :
    Returns (recvTupleFrom cfg R r n s) fun p => SystemInv cfg R info true senders m p.2 ∧
      ((s.streams r).ended = true → s.inFlight r ≤ n → ¬ p.1.IsWaiting) := by
  induction n generalizing s with
  | zero =>
    unfold recvTupleFrom
    cases hready : (s.node.entry r).readyTuples with
    | cons tuple ready => exact returns_ok ⟨h.takeFrom hready, fun _ _ => id⟩
    | nil =>
      simp only
      split_ifs with heos
      · exact returns_ok ⟨h.endFrom hready heos, fun _ _ => id⟩
      · refine returns_ok ⟨h, fun hended hzero => ?_⟩
        exact absurd (h.at_end hended (Nat.le_zero.mp hzero)) heos
  | succ n ih =>
    unfold recvTupleFrom
    cases hready : (s.node.entry r).readyTuples with
    | cons tuple ready => exact returns_ok ⟨h.takeFrom hready, fun _ _ => id⟩
    | nil =>
      simp only
      split_ifs with heos
      · exact returns_ok ⟨h.endFrom hready heos, fun _ _ => id⟩
      · cases hnext : s.nextPacket r with
        | none =>
          refine returns_ok ⟨h, fun hended _ => ?_⟩
          exact absurd (h.at_end hended (nextPacket_none hnext)) heos
        | some packet =>
          obtain ⟨node, hprocess, hinv⟩ := h.receive (fun hfalse => absurd hfalse (by decide)) hnext
          simp only [hprocess]
          refine (ih hinv).mono fun p ⟨hinv', hreturns⟩ => ⟨hinv', fun hended hn => ?_⟩
          refine hreturns hended ?_
          rw [inFlight_receive, if_pos rfl]
          omega

/-- All senders have ended their streams, and all their packets can come. -/
def CanEnd (senders : Finset ℕ) (s : System ρ) (routes : List ℕ) : Prop :=
  senders.Nonempty ∧ (∀ r ∈ senders, (s.streams r).ended = true) ∧
    ∀ r ∈ senders, s.inFlight r ≤ routes.count r

/-- A connection without a packet is passed over. -/
theorem CanEnd.skip {routes : List ℕ} (h : CanEnd senders s (r :: routes))
    (hnone : s.nextPacket r = none) : CanEnd senders s routes := by
  obtain ⟨hnonempty, hended, hroutes⟩ := h
  refine ⟨hnonempty, hended, fun r' hr' => ?_⟩
  by_cases hr : r' = r
  · rw [hr, nextPacket_none hnone]
    exact Nat.zero_le _
  · rw [← List.count_cons_of_ne (Ne.symm hr)]
    exact hroutes r' hr'

/-- A packet has come. -/
theorem CanEnd.receive {routes : List ℕ} (h : CanEnd senders s (r :: routes))
    (node : MotionNodeEntry ρ) : CanEnd senders (s.receive r node) routes := by
  obtain ⟨hnonempty, hended, hroutes⟩ := h
  refine ⟨hnonempty, hended, fun r' hr' => ?_⟩
  have hcount := hroutes r' hr'
  rw [inFlight_receive]
  split_ifs with hr
  · rw [hr] at hcount ⊢
    rw [List.count_cons_self] at hcount
    omega
  · rwa [List.count_cons_of_ne (Ne.symm hr)] at hcount

/-- **`RecvTupleFrom` any sender** raises no error, and does not wait when all packets can come. -/
theorem recvTupleAny_spec (h : SystemInv cfg R info false senders m s) (routes : List ℕ) :
    Returns (recvTupleAny cfg R routes s) fun p => SystemInv cfg R info false senders m p.2 ∧
      (CanEnd senders s routes → ¬ p.1.IsWaiting) := by
  induction routes generalizing s with
  | nil =>
    unfold recvTupleAny
    cases hready : s.node.readyTuples with
    | cons tuple ready => exact returns_ok ⟨h.takeAny hready, fun _ => id⟩
    | nil =>
      simp only
      split_ifs with hmore
      · exact returns_ok ⟨h.endAny hready hmore, fun _ => id⟩
      · refine returns_ok ⟨h, fun ⟨hnonempty, hended, hroutes⟩ => ?_⟩
        have hall : endsOf s.node senders = senders := Finset.filter_eq_self.mpr fun r hr =>
          h.at_end (hended r hr) (Nat.le_zero.mp (hroutes r hr))
        exact absurd (h.node.more.mpr ⟨hnonempty, hall⟩) hmore
  | cons r routes ih =>
    unfold recvTupleAny
    cases hready : s.node.readyTuples with
    | cons tuple ready => exact returns_ok ⟨h.takeAny hready, fun _ => id⟩
    | nil =>
      simp only
      split_ifs with hmore
      · exact returns_ok ⟨h.endAny hready hmore, fun _ => id⟩
      · cases hnext : s.nextPacket r with
        | none =>
          refine (ih h).mono fun p ⟨hinv', hreturns⟩ => ⟨hinv', fun hcan => ?_⟩
          exact hreturns (hcan.skip hnext)
        | some packet =>
          have hopen : s.consumer.ended = false := by
            by_contra hended
            exact hmore (h.ended rfl (Bool.eq_true_of_not_eq_false hended)).1
          obtain ⟨node, hprocess, hinv⟩ := h.receive (fun _ => hopen) hnext
          simp only [hprocess]
          refine (ih hinv).mono fun p ⟨hinv', hreturns⟩ => ⟨hinv', fun hcan => ?_⟩
          exact hreturns (hcan.receive node)

/-! ## Runs -/

theorem systemInv_start (cfg : PacketConfig) (R : Remapper ρ) (info : SerTupInfo)
    (motionNodeId : ℕ) (order : Bool) (senders : Finset ℕ) (m : ρ) (pBuff : ℕ → ℕ → UInt8) :
    SystemInv cfg R info order senders m
      (startSystem cfg info motionNodeId order senders m pBuff) where
  conn r := PacketSend.sendOk_start cfg (pBuff r)
  aligned r := alignedConn_start cfg (pBuff r)
  received_le _ := le_refl 0
  node :=
    { info_eq := rfl
      order_eq := rfl
      arrived := by
        refine ⟨fun _ => [], fun _ => progress_start cfg R info m, ?_⟩
        split_ifs
        · exact fun _ => rfl
        · exact interleaving_nil
      outside := fun _ _ => rfl
      numSenders := rfl
      ends := by
        refine (Finset.card_eq_zero.mpr (Finset.filter_eq_empty_iff.mpr fun r _ => ?_)).symm
        exact Bool.false_ne_true
      more := by
        refine iff_of_false (fun hfalse : true = false => absurd hfalse (by decide))
          fun ⟨⟨r, hr⟩, hall⟩ => ?_
        exact absurd (Finset.filter_eq_self.mp hall r hr) Bool.false_ne_true }
  flushed _ _ := rfl
  endedFrom _ _ hended := absurd hended Bool.false_ne_true
  ended _ hended := absurd hended Bool.false_ne_true

/-- **A step** raises no error and keeps the invariant. -/
theorem systemInv_step (h : SystemInv cfg R info order senders m s) {a : Action}
    (haligned : a.Aligned cfg) :
    Returns (step cfg R info senders s a) (SystemInv cfg R info order senders m) := by
  cases a with
  | sendTuple r row broadcast buffers =>
    refine returns_ok ?_
    split_ifs with hopen
    · obtain ⟨hsends, hreads⟩ := sends_sendTuple info (h.conn r) haligned buffers
      exact h.sends hopen.1 hopen.2 hsends
        (fun hended => absurd hended (by rw [Stream.ship, hopen.2]; decide))
        fun _ _ _ _ hprogress => hprogress.ship hopen.2 hreads
    · exact h
  | sendRecordCache r cache buffers =>
    refine returns_ok ?_
    split_ifs with hopen
    · obtain ⟨hsends, hreads⟩ := sends_sendRecordCache info (h.conn r) cache buffers
      exact h.sends hopen.1 hopen.2 hsends
        (fun hended => absurd hended (by rw [Stream.ship, hopen.2]; decide))
        fun _ _ _ _ hprogress => hprogress.ship hopen.2 hreads
    · exact h
  | flush r header fresh =>
    refine returns_ok ?_
    split_ifs with hopen
    · have hflush := h.sends hopen.1 hopen.2 (sends_flush (h.conn r) header fresh)
        (fun hended : (s.streams r).ended = true => absurd hended (by rw [hopen.2]; decide))
        fun _ _ _ _ hprogress => by rwa [List.append_nil]
      rwa [Function.update_eq_self] at hflush
    · exact h
  | sendEos r buffers =>
    refine returns_ok ?_
    split_ifs with hopen
    · obtain ⟨hsends, hflushed⟩ := sends_sendEos (h.conn r) buffers
      exact h.sends hopen.1 hopen.2 hsends (fun _ => hflushed)
        fun _ _ _ _ hprogress => hprogress.finish hopen.2
    · exact h
  | recvFrom r packets =>
    rw [step]
    split_ifs with horder
    · obtain rfl : order = true := h.node.order_eq.symm.trans horder
      obtain ⟨p, hrecv, hinv, -⟩ := recvTupleFrom_spec (r := r) h packets
      exact ⟨p.2, by rw [hrecv]; rfl, hinv⟩
    · exact returns_ok h
  | recvAny routes =>
    rw [step]
    split_ifs with horder
    · exact returns_ok h
    · obtain rfl : order = false :=
        h.node.order_eq.symm.trans (Bool.eq_false_of_not_eq_true horder)
      obtain ⟨p, hrecv, hinv, -⟩ := recvTupleAny_spec h routes
      exact ⟨p.2, by rw [hrecv]; rfl, hinv⟩

/-- What the receiver has taken, and what it was told of the end, in any state. -/
structure Delivered (cfg : PacketConfig) (R : Remapper ρ) (info : SerTupInfo) (senders : Finset ℕ)
    (m : ρ) (s : System ρ) : Prop where
  in_order : s.node.preserveOrder = true → ∀ r,
    s.consumer.takenFrom r <+: (outcome cfg R info m (s.streams r).items).1
  end_in_order : s.node.preserveOrder = true → ∀ r, s.consumer.endedFrom r = true →
    (s.streams r).ended = true ∧
      s.consumer.takenFrom r = (outcome cfg R info m (s.streams r).items).1
  interleaved : s.node.preserveOrder = false → ∃ arrived : ℕ → List GenericTuple,
    Interleaving arrived s.consumer.taken ∧
      ∀ r, arrived r <+: (outcome cfg R info m (s.streams r).items).1
  end_interleaved : s.node.preserveOrder = false → s.consumer.ended = true →
    (∀ r ∈ senders, (s.streams r).ended = true) ∧
      Interleaving (fun r => (outcome cfg R info m (s.streams r).items).1) s.consumer.taken

theorem SystemInv.delivered (h : SystemInv cfg R info order senders m s) :
    Delivered cfg R info senders m s where
  in_order horder r := by
    obtain rfl : order = true := h.node.order_eq.symm.trans horder
    exact (List.prefix_append _ _).trans (h.node.takenFrom_begins r)
  end_in_order horder := h.endedFrom (h.node.order_eq.symm.trans horder)
  interleaved horder := by
    obtain rfl : order = false := h.node.order_eq.symm.trans horder
    exact h.node.taken_interleaving
  end_interleaved horder hended := by
    obtain rfl : order = false := h.node.order_eq.symm.trans horder
    obtain ⟨hmore, hready⟩ := h.ended rfl hended
    exact h.node.taken_all hmore hready

theorem systemInv_run (R : Remapper ρ) (info : SerTupInfo) (motionNodeId : ℕ) (order : Bool)
    (senders : Finset ℕ) (m : ρ) (pBuff : ℕ → ℕ → UInt8) (as : List Action)
    (haligned : ∀ a ∈ as, a.Aligned cfg) :
    Returns (as.foldlM (step cfg R info senders)
        (startSystem cfg info motionNodeId order senders m pBuff))
      (SystemInv cfg R info order senders m) :=
  returns_foldlM (fun _ a ha h => systemInv_step h (haligned a ha))
    (systemInv_start cfg R info motionNodeId order senders m pBuff)

/-- **Motion delivers.** Whatever the senders send that is aligned, and however it is written into
packets, and whatever the order in which the packets of different senders come, no error is raised.
The receiver has taken the tuples of each sender unchanged and in their order, as far as it has
taken them, and where it was told of the end it has taken them all. -/
theorem motion_delivers (R : Remapper ρ) (info : SerTupInfo) (motionNodeId : ℕ) (order : Bool)
    (senders : Finset ℕ) (m : ρ) (pBuff : ℕ → ℕ → UInt8) (as : List Action)
    (haligned : ∀ a ∈ as, a.Aligned cfg) :
    Returns (as.foldlM (step cfg R info senders)
        (startSystem cfg info motionNodeId order senders m pBuff))
      (Delivered cfg R info senders m) :=
  (systemInv_run R info motionNodeId order senders m pBuff as haligned).mono fun _ h => h.delivered

/-- Packets of 512 bytes, in which chunks are aligned to 4. -/
def alignedPackets : PacketConfig :=
  { PacketSend.smallPackets with
    transport := .udpifc, tupleChunkAlign := 4, align_eq := Or.inr rfl }

/-- The remapper of a motion whose rows have no record types in them. -/
def keepTypes : Remapper Unit := ⟨fun m _ => m, fun m tuple => (tuple, m)⟩

/-- A memtuple that does not fit in a packet. -/
def longRow : Row := ⟨.mem ([0xC8, 1, 0, 0x80] ++ List.replicate 452 7), by decide +kernel⟩

/-- A heap tuple of two attributes, the second one null. -/
def heapRow : Row := ⟨.heap ⟨32, 24, 1, 2, [1], [5, 6, 7, 8, 0, 0, 0, 0]⟩, by decide +kernel⟩

/-- Two senders end their streams, one of them after a row. -/
def endBoth : List Action :=
  [.sendTuple 0 heapRow false fun _ => (0, 0), .sendEos 1 fun _ => (0, 0),
    .sendEos 0 fun _ => (0, 0)]

theorem endBoth_aligned : ∀ a ∈ endBoth, a.Aligned alignedPackets :=
  List.forall_mem_cons.mpr ⟨fun _ => heapRow.aligned_heap _ rfl (by decide),
    List.forall_mem_cons.mpr ⟨trivial, List.forall_mem_singleton.mpr trivial⟩⟩

/-- Before that, a row is sent and the receiver asks for it, and then for the others. -/
def longExchange : List Action :=
  .sendTuple 1 longRow false (fun _ => (0, 0)) :: .recvAny [1, 0, 1] :: endBoth ++
    [.recvAny [0, 0], .recvAny [1, 1], .recvAny []]

theorem motion_delivers_longExchange :
    Returns (longExchange.foldlM (step alignedPackets keepTypes ⟨2, false⟩ {0, 1})
        (startSystem alignedPackets ⟨2, false⟩ 5 false {0, 1} () 0)) fun s =>
      Delivered alignedPackets keepTypes ⟨2, false⟩ {0, 1} () s ∧
        s.consumer.taken = [heapRow.tuple.received alignedPackets ⟨2, false⟩, longRow.tuple] ∧
        s.consumer.ended = true := by
  have haligned : ∀ a ∈ longExchange, a.Aligned alignedPackets := by
    refine List.forall_mem_cons.mpr ⟨fun _ => longRow.aligned_mem _ rfl, ?_⟩
    refine List.forall_mem_cons.mpr ⟨trivial, List.forall_mem_append.mpr ⟨endBoth_aligned, ?_⟩⟩
    exact fun a ha => by fin_cases ha <;> trivial
  obtain ⟨s, hrun, hs⟩ :=
    motion_delivers keepTypes ⟨2, false⟩ 5 false {0, 1} () 0 longExchange haligned
  have htaken : (longExchange.foldlM (step alignedPackets keepTypes ⟨2, false⟩ {0, 1})
      (startSystem alignedPackets ⟨2, false⟩ 5 false {0, 1} () 0)).toOption.map
        (fun s => (s.consumer.taken, s.consumer.ended)) =
      some ([heapRow.tuple.received alignedPackets ⟨2, false⟩, longRow.tuple], true) := by
    decide +kernel
  rw [hrun] at htaken
  exact ⟨s, hrun, hs, Prod.mk.inj (Option.some.inj htaken)⟩

/-- **The receiver does not wait for nothing.** In any state, when the senders it asks have ended
their streams and all their packets come, it is given a tuple or is told of the end. -/
theorem motion_returns (R : Remapper ρ) (info : SerTupInfo) (motionNodeId : ℕ) (order : Bool)
    (senders : Finset ℕ) (m : ρ) (pBuff : ℕ → ℕ → UInt8) (as : List Action)
    (haligned : ∀ a ∈ as, a.Aligned cfg) :
    Returns (as.foldlM (step cfg R info senders)
        (startSystem cfg info motionNodeId order senders m pBuff)) fun s =>
      (order = true → ∀ r, (s.streams r).ended = true → ∀ n, s.inFlight r ≤ n →
        Returns (recvTupleFrom cfg R r n s) fun p => ¬ p.1.IsWaiting) ∧
      (order = false → senders.Nonempty → (∀ r ∈ senders, (s.streams r).ended = true) →
        ∀ routes, (∀ r ∈ senders, s.inFlight r ≤ routes.count r) →
          Returns (recvTupleAny cfg R routes s) fun p => ¬ p.1.IsWaiting) :=
  (systemInv_run R info motionNodeId order senders m pBuff as haligned).mono fun s h =>
    ⟨fun horder r hended n hn => by
      subst horder
      exact (recvTupleFrom_spec h n).mono fun _ hp => hp.2 hended hn,
    fun horder hnonempty hended routes hroutes => by
      subst horder
      exact (recvTupleAny_spec h routes).mono fun _ hp => hp.2 ⟨hnonempty, hended, hroutes⟩⟩

theorem motion_returns_endBoth : ∃ s,
    endBoth.foldlM (step alignedPackets keepTypes ⟨2, false⟩ {0, 1})
        (startSystem alignedPackets ⟨2, false⟩ 5 false {0, 1} () 0) = .ok s ∧
      Returns (recvTupleAny alignedPackets keepTypes [1, 0] s) fun p => ¬ p.1.IsWaiting := by
  obtain ⟨s, hrun, -, hany⟩ :=
    motion_returns keepTypes ⟨2, false⟩ 5 false {0, 1} () 0 endBoth endBoth_aligned
  obtain rfl := Except.ok.inj hrun
  refine ⟨_, rfl, hany rfl ⟨0, by decide⟩ (by decide) _ (by decide)⟩

end Hdb.Interconnect.Motion
