import Hdb.Interconnect.PacketSplit
import Hdb.Lib.Run

/-!
# What is put into a packet

A sender appends chunks to the buffer of a connection and sends the buffer when the next one does
not fit. A chunk is made beforehand and copied, or a tuple is written straight into the buffer. The
message is longer by the aligned length of a chunk that is copied, and by the length of one that is
written into it, which for a heap tuple is not rounded up.

Main results: `splits_iff`, for every packet a sender can send, and `packets_split_iff`.
-/

namespace Hdb.Interconnect.PacketSend

open MemTuple (typeAlign)

/-! ## The sender -/

inductive TupleChunkType where
  | whole
  | partialStart
  | partialMid
  | partialEnd
  | endOfStream
  | empty
  deriving DecidableEq

def TupleChunkType.code : TupleChunkType → ℕ
  | .whole => 0
  | .partialStart => 1
  | .partialMid => 2
  | .partialEnd => 3
  | .endOfStream => 4
  | .empty => 5

structure TupleChunk where
  type : TupleChunkType
  data : List UInt8
  deriving DecidableEq

namespace TupleChunk

/-- The chunk in memory: the size of its data, its type and its data. -/
def bytes (chunk : TupleChunk) : List UInt8 :=
  toLittleEndian 2 chunk.data.length ++ toLittleEndian 2 chunk.type.code ++ chunk.data

/-- `chunk_length`, which counts the header. -/
def length (chunk : TupleChunk) : ℕ := tupleChunkHeaderSize + chunk.data.length

end TupleChunk

/-- A chunk that was put into the buffer, and what it added to the size of the message. -/
structure Put where
  chunk : TupleChunk
  length : ℕ

/-- A packet as it was sent, with what was put into it. -/
structure Packet where
  bytes : ℕ → UInt8
  msgSize : ℕ
  puts : List Put

/-- The sending side of a connection. `puts` and `sent` are the history. -/
structure SendConn where
  pBuff : ℕ → UInt8
  msgSize : ℕ
  puts : List Put
  sent : List Packet

variable (cfg : PacketConfig)

def SendConn.start (pBuff : ℕ → UInt8) : SendConn := ⟨pBuff, cfg.headerSize, [], []⟩

def gpMaxTupleChunkSize : ℕ := cfg.gpMaxPacketSize - cfg.headerSize - tupleChunkHeaderSize

/-- The header of a message: its size, or the whole `conn_info` with the size in it. -/
def headerBytes (info : ℕ → UInt8) (msgSize : ℕ) : List UInt8 :=
  match cfg.transport with
  | .tcp => toLittleEndian 4 msgSize
  | .udpifc => readBytes info 0 52 ++ toLittleEndian 4 msgSize ++ readBytes info 56 8

/-- `flushBuffer`, or `prepareXmit` and a new buffer. -/
def flushBuffer (info fresh : ℕ → UInt8) (conn : SendConn) : SendConn where
  pBuff := match cfg.transport with
    | .tcp => conn.pBuff
    | .udpifc => fresh
  msgSize := cfg.headerSize
  puts := []
  sent := conn.sent ++
    [⟨writeBytes conn.pBuff 0 (headerBytes cfg info conn.msgSize), conn.msgSize, conn.puts⟩]

/-- The chunk is copied to the end of the buffer. -/
def appendChunk (chunk : TupleChunk) (conn : SendConn) : SendConn :=
  { conn with
    pBuff := writeBytes conn.pBuff conn.msgSize chunk.bytes
    msgSize := conn.msgSize + typeAlign cfg.tupleChunkAlign chunk.length
    puts := conn.puts ++ [⟨chunk, typeAlign cfg.tupleChunkAlign chunk.length⟩] }

/-- `SendChunkTCP` and `SendChunkUDPIFC`. -/
def sendChunk (info fresh : ℕ → UInt8) (chunk : TupleChunk) (conn : SendConn) : SendConn :=
  if cfg.gpMaxPacketSize < conn.msgSize + typeAlign cfg.tupleChunkAlign chunk.length then
    appendChunk cfg chunk (flushBuffer cfg info fresh conn)
  else appendChunk cfg chunk conn

/-- What `SerializeTuple` is given: a row with no attributes, a memtuple, or a heap tuple with its
null bitmap, if it has one, and its data. -/
inductive DirectTuple where
  | empty
  | memTuple (tuple : List UInt8)
  | heapTuple (natts infomask : ℕ) (nulls data : List UInt8)

def padding (n : ℕ) : List UInt8 := List.replicate (typeAlign cfg.tupleChunkAlign n - n) 0

/-- The chunk that `SerializeTuple` writes into the buffer, with the padding it writes behind it. -/
def DirectTuple.chunk : DirectTuple → TupleChunk × List UInt8
  | .empty => (⟨.empty, []⟩, [])
  | .memTuple tuple => (⟨.whole, tuple ++ padding cfg tuple.length⟩, [])
  | .heapTuple natts infomask nulls data =>
    let tuplen := 8 + typeAlign cfg.tupleChunkAlign nulls.length + data.length
    (⟨.whole, toLittleEndian 4 tuplen ++ toLittleEndian 2 natts ++ toLittleEndian 2 infomask ++
      (nulls ++ padding cfg nulls.length) ++ data⟩, padding cfg data.length)

/-- The room that `getTransportDirectBuffer` finds. -/
def prilen (conn : SendConn) : ℕ := cfg.gpMaxPacketSize - conn.msgSize

/-- The chunk is written where the message ends, and `putTransportDirectBuffer` is called. -/
def writeDirect (chunk : TupleChunk) (behind : List UInt8) (conn : SendConn) : SendConn :=
  { conn with
    pBuff := writeBytes conn.pBuff conn.msgSize (chunk.bytes ++ behind)
    msgSize := conn.msgSize + chunk.length
    puts := conn.puts ++ [⟨chunk, chunk.length⟩] }

/-- `SerializeTuple` into the buffer. `none` when the tuple is not written there. -/
def sendDirect (tuple : DirectTuple) (conn : SendConn) : Option SendConn :=
  if tupleChunkHeaderSize < prilen cfg conn ∧ (tuple.chunk cfg).1.length ≤ prilen cfg conn then
    some (writeDirect (tuple.chunk cfg).1 (tuple.chunk cfg).2 conn)
  else none

inductive SendAction where
  | sendChunk (info fresh : ℕ → UInt8) (chunk : TupleChunk)
  | sendDirect (tuple : DirectTuple)
  | flushBuffer (info fresh : ℕ → UInt8)

/-- The chunks that are made are not longer than `Gp_max_tuple_chunk_size`. -/
def sendStep (conn : SendConn) : SendAction → Option SendConn
  | .sendChunk info fresh chunk =>
    if chunk.length ≤ gpMaxTupleChunkSize cfg then some (sendChunk cfg info fresh chunk conn)
    else none
  | .sendDirect tuple => sendDirect cfg tuple conn
  | .flushBuffer info fresh => some (flushBuffer cfg info fresh conn)

/-! ## What is in the buffer -/

variable {cfg : PacketConfig} {mem : ℕ → UInt8} {pos stop : ℕ} {puts : List Put}

/-- The chunks stand one behind the other from `pos` to `stop`. -/
def Buffered (cfg : PacketConfig) (mem : ℕ → UInt8) (stop : ℕ) : ℕ → List Put → Prop
  | pos, [] => pos = stop
  | pos, put :: puts => HoldsAt mem pos put.chunk.bytes ∧ put.chunk.length ≤ put.length ∧
    (put.length = typeAlign cfg.tupleChunkAlign put.chunk.length ∨
      put.length = put.chunk.length) ∧ Buffered cfg mem stop (pos + put.length) puts

@[simp] theorem TupleChunk.length_bytes (chunk : TupleChunk) :
    chunk.bytes.length = chunk.length := by
  rw [TupleChunk.bytes, List.length_append, List.length_append, length_toLittleEndian,
    length_toLittleEndian, TupleChunk.length]
  rfl

theorem Buffered.le (h : Buffered cfg mem stop pos puts) : pos ≤ stop := by
  induction puts generalizing pos with
  | nil => exact le_of_eq h
  | cons put puts ih => exact (Nat.le_add_right pos _).trans (ih h.2.2.2)

/-- What is written before the chunks or behind them does not touch them. -/
theorem Buffered.writeBytes (h : Buffered cfg mem stop pos puts) {off : ℕ} {bs : List UInt8}
    (hapart : stop ≤ off ∨ off + bs.length ≤ pos) :
    Buffered cfg (writeBytes mem off bs) stop pos puts := by
  induction puts generalizing pos with
  | nil => exact h
  | cons put puts ih =>
    obtain ⟨hholds, hlength, hput, hrest⟩ := h
    have hle := hrest.le
    refine ⟨hholds.writeBytes ?_, hlength, hput, ih hrest ?_⟩
    · rw [TupleChunk.length_bytes]
      omega
    · omega

/-- One more chunk is put behind the others. -/
theorem Buffered.append (h : Buffered cfg mem stop pos puts) {put : Put}
    (hholds : HoldsAt mem stop put.chunk.bytes) (hlength : put.chunk.length ≤ put.length)
    (hput : put.length = typeAlign cfg.tupleChunkAlign put.chunk.length ∨
      put.length = put.chunk.length) :
    Buffered cfg mem (stop + put.length) pos (puts ++ [put]) := by
  induction puts generalizing pos with
  | nil =>
    obtain rfl : pos = stop := h
    exact ⟨hholds, hlength, hput, rfl⟩
  | cons put' puts ih =>
    obtain ⟨hholds', hlength', hput', hrest⟩ := h
    exact ⟨hholds', hlength', hput', ih hrest⟩

/-- What a packet that was sent has in it. -/
structure PacketOk (cfg : PacketConfig) (packet : Packet) : Prop where
  size_le : packet.msgSize ≤ cfg.gpMaxPacketSize
  declared : declaredSize cfg packet.bytes = packet.msgSize
  buffered : Buffered cfg packet.bytes packet.msgSize cfg.headerSize packet.puts

structure SendOk (cfg : PacketConfig) (conn : SendConn) : Prop where
  size_le : conn.msgSize ≤ cfg.gpMaxPacketSize
  buffered : Buffered cfg conn.pBuff conn.msgSize cfg.headerSize conn.puts
  sent : ∀ packet ∈ conn.sent, PacketOk cfg packet

theorem headerSize_le (cfg : PacketConfig) : cfg.headerSize ≤ 64 := by
  unfold PacketConfig.headerSize
  cases cfg.transport <;> decide

theorem length_headerBytes (cfg : PacketConfig) (info : ℕ → UInt8) (msgSize : ℕ) :
    (headerBytes cfg info msgSize).length = cfg.headerSize := by
  unfold headerBytes PacketConfig.headerSize
  cases cfg.transport <;> simp

theorem sendOk_start (cfg : PacketConfig) (pBuff : ℕ → UInt8) : SendOk cfg (.start cfg pBuff) where
  size_le := (headerSize_le cfg).trans ((by decide : 64 ≤ 512).trans cfg.min_le)
  buffered := rfl
  sent packet hpacket := absurd hpacket List.not_mem_nil

/-- The size of a message is read back from its header. -/
theorem declaredSize_header (cfg : PacketConfig) (mem info : ℕ → UInt8) {msgSize : ℕ}
    (hle : msgSize ≤ cfg.gpMaxPacketSize) :
    declaredSize cfg (writeBytes mem 0 (headerBytes cfg info msgSize)) = msgSize := by
  have hmax := cfg.le_max
  have hheld := holdsAt_writeBytes mem 0 (headerBytes cfg info msgSize)
  have hlength : HoldsAt (writeBytes mem 0 (headerBytes cfg info msgSize)) cfg.lengthOffset
      (toLittleEndian 4 msgSize) := by
    unfold headerBytes PacketConfig.lengthOffset at *
    cases htransport : cfg.transport with
    | tcp =>
      simp only [htransport] at hheld ⊢
      exact hheld
    | udpifc =>
      simp only [htransport] at hheld ⊢
      rw [List.append_assoc] at hheld ⊢
      have hbehind := (holdsAt_append.mp hheld).2
      rw [length_readBytes] at hbehind
      exact (holdsAt_append.mp hbehind).1
  have hread := hlength.ofLittleEndian
  have hmod : msgSize % 256 ^ 4 = msgSize := Nat.mod_eq_of_lt (by omega)
  rw [hmod] at hread
  unfold declaredSize
  rw [hread]
  exact bmod_natCast (by omega)

theorem SendOk.flushBuffer {conn : SendConn} (h : SendOk cfg conn) (info fresh : ℕ → UInt8) :
    SendOk cfg (flushBuffer cfg info fresh conn) where
  size_le := (sendOk_start cfg conn.pBuff).size_le
  buffered := rfl
  sent packet hpacket := by
    obtain hpacket | hpacket := List.mem_append.mp hpacket
    · exact h.sent packet hpacket
    · rw [List.mem_singleton.mp hpacket]
      have hheader : 0 + (headerBytes cfg info conn.msgSize).length ≤ cfg.headerSize := by
        rw [length_headerBytes, Nat.zero_add]
      have hbuffered := h.buffered.writeBytes (Or.inr hheader)
      exact ⟨h.size_le, declaredSize_header cfg conn.pBuff info h.size_le, hbuffered⟩

theorem SendOk.appendChunk {conn : SendConn} (h : SendOk cfg conn) {chunk : TupleChunk}
    (hfits : conn.msgSize + typeAlign cfg.tupleChunkAlign chunk.length ≤ cfg.gpMaxPacketSize) :
    SendOk cfg (appendChunk cfg chunk conn) := by
  have hkeep : Buffered cfg (Hdb.writeBytes conn.pBuff conn.msgSize chunk.bytes) conn.msgSize
      cfg.headerSize conn.puts := h.buffered.writeBytes (Or.inl (le_refl _))
  let put : Put := ⟨chunk, typeAlign cfg.tupleChunkAlign chunk.length⟩
  have hheld : HoldsAt (Hdb.writeBytes conn.pBuff conn.msgSize chunk.bytes) conn.msgSize
      put.chunk.bytes := holdsAt_writeBytes _ _ _
  exact ⟨hfits, hkeep.append hheld (typeAlign_spec cfg _).1 (Or.inl rfl), h.sent⟩

theorem SendOk.writeDirect {conn : SendConn} (h : SendOk cfg conn) {chunk : TupleChunk}
    (behind : List UInt8) (hfits : conn.msgSize + chunk.length ≤ cfg.gpMaxPacketSize) :
    SendOk cfg (writeDirect chunk behind conn) := by
  have hkeep : Buffered cfg (Hdb.writeBytes conn.pBuff conn.msgSize (chunk.bytes ++ behind))
      conn.msgSize cfg.headerSize conn.puts := h.buffered.writeBytes (Or.inl (le_refl _))
  let put : Put := ⟨chunk, chunk.length⟩
  have hheld : HoldsAt (Hdb.writeBytes conn.pBuff conn.msgSize (chunk.bytes ++ behind))
      conn.msgSize put.chunk.bytes := (holdsAt_append.mp (holdsAt_writeBytes _ _ _)).1
  exact ⟨hfits, hkeep.append hheld (le_refl _) (Or.inr rfl), h.sent⟩

theorem SendOk.step {conn conn' : SendConn} (h : SendOk cfg conn) {a : SendAction}
    (hstep : sendStep cfg conn a = some conn') : SendOk cfg conn' := by
  cases a with
  | sendChunk info fresh chunk =>
    rw [sendStep] at hstep
    split_ifs at hstep with hlength
    cases hstep
    rw [gpMaxTupleChunkSize, tupleChunkHeaderSize] at hlength
    unfold sendChunk
    split_ifs with hfull
    · refine (h.flushBuffer info fresh).appendChunk ?_
      obtain ⟨-, hpadded, -⟩ := typeAlign_spec cfg chunk.length
      have hheader := headerSize_le cfg
      have hmin := cfg.min_le
      change cfg.headerSize + typeAlign cfg.tupleChunkAlign chunk.length ≤ cfg.gpMaxPacketSize
      omega
    · exact h.appendChunk (not_lt.mp hfull)
  | sendDirect tuple =>
    rw [sendStep, sendDirect] at hstep
    split_ifs at hstep with hfits
    cases hstep
    obtain ⟨hroom, hlength⟩ := hfits
    unfold prilen at hroom hlength
    exact h.writeDirect _ (by omega)
  | flushBuffer info fresh =>
    cases hstep
    exact h.flushBuffer info fresh

theorem sendOk_run {pBuff : ℕ → UInt8} {as : List SendAction} {conn : SendConn}
    (hrun : run (sendStep cfg) (.start cfg pBuff) as = some conn) : SendOk cfg conn :=
  run_invariant (fun _ _ _ h hstep => h.step hstep) (sendOk_start cfg pBuff) hrun

/-! ## It is split as it was put together -/

/-- Where the chunks of a packet stand. -/
def placed : ℕ → List Put → List TupleChunkListItem
  | _, [] => []
  | pos, put :: puts => ⟨pos, put.chunk.length⟩ :: placed (pos + put.length) puts

/-- The packet is split into the chunks that were put into it, each where it was put. -/
def Splits (cfg : PacketConfig) (packet : Packet) : Prop :=
  recvTupleChunk cfg packet.bytes (declaredSize cfg packet.bytes) =
      .ok (placed cfg.headerSize packet.puts) ∧
    (placed cfg.headerSize packet.puts).map
      (fun item => readBytes packet.bytes item.inplace.toNat item.chunkLength) =
        packet.puts.map fun put => put.chunk.bytes

theorem tcSize_of_holdsAt {chunk : TupleChunk} (h : HoldsAt mem pos chunk.bytes)
    (hlt : chunk.data.length < 65536) : tcSize mem pos = chunk.length := by
  have hsize : HoldsAt mem pos (toLittleEndian 2 chunk.data.length) :=
    (holdsAt_append.mp (holdsAt_append.mp h).1).1
  have hmod : chunk.data.length % 256 ^ 2 = chunk.data.length := Nat.mod_eq_of_lt (by omega)
  rw [tcSize, Int.toNat_natCast, hsize.ofLittleEndian, hmod, TupleChunk.length]

theorem typeAlign_of_dvd {n : ℕ} (h : cfg.tupleChunkAlign ∣ n) :
    typeAlign cfg.tupleChunkAlign n = n := by
  unfold typeAlign
  obtain halign | halign := cfg.align_eq <;> rw [halign] at h ⊢ <;> omega

/-- A chunk that was put adds its aligned length to the message when what it adds is aligned. -/
theorem put_length_iff {put : Put}
    (hput : put.length = typeAlign cfg.tupleChunkAlign put.chunk.length ∨
      put.length = put.chunk.length) :
    put.length = typeAlign cfg.tupleChunkAlign put.chunk.length ↔
      cfg.tupleChunkAlign ∣ put.length := by
  constructor
  · intro h
    exact h ▸ (typeAlign_spec cfg put.chunk.length).2.2
  · intro h
    obtain hput | hput := hput
    · exact hput
    · rw [hput] at h ⊢
      exact (typeAlign_of_dvd h).symm

theorem read_placed (h : Buffered cfg mem stop pos puts) :
    (placed pos puts).map (fun item => readBytes mem item.inplace.toNat item.chunkLength) =
      puts.map fun put => put.chunk.bytes := by
  induction puts generalizing pos with
  | nil => rfl
  | cons put puts ih =>
    rw [placed, List.map_cons, List.map_cons, ih h.2.2.2]
    refine congrArg (· :: _) ?_
    exact h.1.read (TupleChunk.length_bytes put.chunk).symm

/-- **The loop takes the chunks apart** when each one is as long in the message as the loop takes it
to be. -/
theorem recvLoop_placed (h : Buffered cfg mem stop pos puts) (hpos : cfg.headerSize ≤ pos)
    (hstop : stop ≤ cfg.gpMaxPacketSize) :
    recvLoop cfg mem stop pos = .ok (placed pos puts) ↔
      ∀ put ∈ puts, cfg.tupleChunkAlign ∣ put.length := by
  induction puts generalizing pos with
  | nil =>
    obtain rfl : pos = stop := h
    exact iff_of_true (recvLoop_self _ _ _) (List.forall_mem_nil _)
  | cons put puts ih =>
    obtain ⟨hholds, hlength, hput, hrest⟩ := h
    have hle := hrest.le
    have hnextPos : cfg.headerSize ≤ pos + put.length := hpos.trans (Nat.le_add_right _ _)
    have hmax := cfg.le_max
    have hheader : 4 ≤ put.chunk.length := Nat.le_add_right 4 _
    have hdata : put.chunk.data.length < put.chunk.length := by
      rw [TupleChunk.length, tupleChunkHeaderSize]
      omega
    have hsize : tcSize mem pos = put.chunk.length := tcSize_of_holdsAt hholds (by omega)
    have hremaining : remaining stop pos = stop - pos := remaining_eq (by omega) (by omega)
    have hstep : recvLoop cfg mem stop pos =
        (recvLoop cfg mem stop (advance cfg pos (tcSize mem pos))).map
          (⟨pos, tcSize mem pos⟩ :: ·) := by
      refine recvLoop_step (by omega) (by omega) fun htcp => ?_
      have hfour : cfg.headerSize = 4 := by
        unfold PacketConfig.headerSize
        rw [htcp]
      omega
    obtain ⟨-, hpadded, -⟩ := typeAlign_spec cfg put.chunk.length
    have hadvance : advance cfg pos put.chunk.length =
        (pos + typeAlign cfg.tupleChunkAlign put.chunk.length : ℕ) := by
      rw [Nat.cast_add]
      exact advance_eq cfg (Int.natCast_nonneg pos) (by omega)
    rw [hstep, hsize, hadvance, placed, List.forall_mem_cons, ← put_length_iff hput]
    constructor
    · intro hok
      cases hnext : recvLoop cfg mem stop
          (pos + typeAlign cfg.tupleChunkAlign put.chunk.length : ℕ) with
      | error e =>
        rw [hnext] at hok
        cases hok
      | ok rest =>
        rw [hnext] at hok
        obtain rfl : rest = placed (pos + put.length) puts := by
          simpa [Except.map] using hok
        -- the next chunk, or the end, is where the loop went
        have hsame : put.length = typeAlign cfg.tupleChunkAlign put.chunk.length := by
          obtain ⟨hend, hnil⟩ | ⟨-, rest, hcons, -⟩ := recvLoop_ok hnext
          · cases puts with
            | nil =>
              have hstop' : pos + put.length = stop := hrest
              omega
            | cons put' puts => cases hnil
          · cases puts with
            | nil => cases hcons
            | cons put' puts =>
              rw [placed, List.cons.injEq, TupleChunkListItem.mk.injEq] at hcons
              omega
        rw [← hsame] at hnext
        exact ⟨hsame, (ih hrest hnextPos).mp hnext⟩
    · rintro ⟨hsame, hothers⟩
      rw [← hsame, (ih hrest hnextPos).mpr hothers]
      rfl

/-- **A packet is split into the chunks that were put into it** when each of them added an aligned
length to it, as they all do where `TUPLE_CHUNK_ALIGN` is 1. -/
theorem splits_iff {packet : Packet} (h : PacketOk cfg packet) :
    Splits cfg packet ↔ ∀ put ∈ packet.puts, cfg.tupleChunkAlign ∣ put.length := by
  rw [Splits, h.declared, recvTupleChunk, read_placed h.buffered, and_iff_left rfl]
  exact recvLoop_placed h.buffered (le_refl _) h.size_le

/-! ## Both sides -/

/-- **Packets are split exactly**: what is received, if and only if the message was received whole,
and what a sender put together, if and only if each chunk added an aligned length. -/
theorem packets_split_iff (cfg : PacketConfig) :
    (∀ bytes recvBytes, Accepts cfg bytes recvBytes →
      ((∀ bytes' items, declaredSize cfg bytes' = declaredSize cfg bytes →
          recvTupleChunk cfg bytes' (declaredSize cfg bytes') = .ok items →
          Exact cfg bytes' recvBytes items) ↔
        Complete cfg (declaredSize cfg bytes) recvBytes)) ∧
      ∀ pBuff as conn, run (sendStep cfg) (.start cfg pBuff) as = some conn →
        ∀ packet ∈ conn.sent,
          (Splits cfg packet ↔ ∀ put ∈ packet.puts, cfg.tupleChunkAlign ∣ put.length) :=
  ⟨fun _ _ haccepts => split_iff haccepts,
    fun _ _ _ hrun packet hpacket => splits_iff ((sendOk_run hrun).sent packet hpacket)⟩

/-- A stream with the smallest packets. -/
def smallPackets : PacketConfig := ⟨.tcp, 1, 512, Or.inl rfl, by decide, by decide⟩

/-- A row without attributes written into the buffer, a chunk that is copied, and a flush. -/
def putTwo : List SendAction :=
  [.sendDirect .empty, .sendChunk (fun _ => 0) (fun _ => 0) ⟨.whole, [1, 2, 3]⟩,
    .flushBuffer (fun _ => 0) (fun _ => 0)]

theorem declaredSize_eight : declaredSize smallPackets (emptyChunks 8) = 8 :=
  (declaredSize_emptyChunks rfl (by norm_num)).trans (by decide)

theorem accepts_eight : Accepts smallPackets (emptyChunks 8) 8 := by
  refine ⟨0, Nat.zero_le _, [8], ?_⟩
  rw [declaredSize_eight]
  decide

/-- A message received whole, and a packet with two chunks in it. -/
theorem packets_split_putTwo :
    (∀ items, recvTupleChunk smallPackets (emptyChunks 8) 8 = .ok items →
        Exact smallPackets (emptyChunks 8) 8 items) ∧
      ∃ conn, run (sendStep smallPackets) (.start smallPackets fun _ => 0) putTwo = some conn ∧
        conn.sent.length = 1 ∧ ∀ packet ∈ conn.sent, Splits smallPackets packet := by
  refine ⟨fun items hitems => ?_, _, rfl, rfl, fun packet hpacket => ?_⟩
  · have hcomplete : Complete smallPackets (declaredSize smallPackets (emptyChunks 8)) 8 := by
      rw [declaredSize_eight]
      exact Or.inr (Or.inl ⟨by norm_num, by norm_num⟩)
    have hsplit :=
      ((packets_split_iff smallPackets).1 (emptyChunks 8) 8 accepts_eight).mpr hcomplete
    exact hsplit (emptyChunks 8) items rfl (declaredSize_eight.symm ▸ hitems)
  · refine ((packets_split_iff smallPackets).2 (fun _ => 0) putTwo _ rfl packet hpacket).mpr ?_
    exact fun put _ => one_dvd put.length

/-- A message of 520 bytes, more than a packet has: a chunk of 496 bytes and one of 20. -/
def overlong : ℕ → UInt8 :=
  writeBytes (writeBytes (writeBytes (fun _ => 0) 0 (toLittleEndian 4 520)) 4
    (toLittleEndian 2 492)) 500 (toLittleEndian 2 16)

/-- The transport hands it over when 512 bytes have been received, and the second chunk is split off
with data behind them. -/
theorem overlong_split :
    Accepts smallPackets overlong 512 ∧
      recvTupleChunk smallPackets overlong (declaredSize smallPackets overlong) =
        .ok [⟨4, 496⟩, ⟨500, 20⟩] ∧
      ¬ Exact smallPackets overlong 512 [⟨4, 496⟩, ⟨500, 20⟩] := by
  have hdeclared : declaredSize smallPackets overlong = 520 := by
    unfold declaredSize
    decide
  have hfirst : tcSize overlong 4 = 496 := by decide
  have hsecond : tcSize overlong 500 = 20 := by decide
  have hend : recvLoop smallPackets overlong 520 500 = .ok [⟨500, 20⟩] := by
    have hleft : remaining 520 500 = 20 := remaining_eq (by norm_num) (by norm_num)
    have hnext : advance smallPackets 500 20 = 520 := advance_eq _ (by norm_num) (by decide)
    rw [recvLoop_step (by rw [hleft]; norm_num) (by rw [hsecond]; decide)
      (fun _ => by rw [hsecond]; decide), hsecond, hnext, recvLoop_self]
    rfl
  refine ⟨⟨0, Nat.zero_le _, [512], ?_⟩, ?_, fun hexact => ?_⟩
  · rw [hdeclared]
    decide
  · have hleft : remaining 520 4 = 516 := remaining_eq (by norm_num) (by norm_num)
    have hnext : advance smallPackets 4 496 = 500 := advance_eq _ (by norm_num) (by decide)
    have hstart : ((smallPackets.headerSize : ℕ) : ℤ) = 4 := rfl
    rw [hdeclared, recvTupleChunk, hstart, recvLoop_step (by rw [hleft]; norm_num)
      (by rw [hfirst]; decide) (fun _ => by rw [hfirst]; decide), hfirst, hnext, hend]
    rfl
  · have hinside := hexact.within_received ⟨500, 20⟩ (by decide)
    norm_num at hinside

end Hdb.Interconnect.PacketSend
