import Hdb.Lib.Memory
import Hdb.MemTuple.Binding

/-!
# A packet is split into chunks

A message of the interconnect is a header and one chunk after the other, each with its own header of
four bytes that declares the size of its data. `RecvTupleChunk` goes from chunk to chunk by the
sizes it reads, up to the size the message was declared with, which is an `int` that the transport
took from the message. An `int` wraps modulo `2 ^ 32 = 4294967296`.

What the transport accepts differs. A datagram is dropped unless it is as long as it says. A stream
is read until the declared size is there or the buffer is full.

Main result: `split_iff`. Splitting is exact, whatever the bytes, in a message that was received
whole, and in no other on a machine that needs no alignment.
-/

namespace Hdb.Interconnect

open MemTuple (typeAlign)

inductive Transport where
  | tcp
  | udpifc
  deriving DecidableEq

/-- The transport, `TUPLE_CHUNK_ALIGN`, which is 4 on sparc, and `Gp_max_packet_size`. -/
structure PacketConfig where
  transport : Transport
  tupleChunkAlign : ℕ
  gpMaxPacketSize : ℕ
  align_eq : tupleChunkAlign = 1 ∨ tupleChunkAlign = 4
  min_le : 512 ≤ gpMaxPacketSize
  le_max : gpMaxPacketSize ≤ 65507

abbrev packetHeaderSize : ℕ := 4

namespace PacketConfig

/-- `PACKET_HEADER_SIZE`, or the size of an `icpkthdr`. -/
def headerSize (cfg : PacketConfig) : ℕ :=
  match cfg.transport with
  | .tcp => packetHeaderSize
  | .udpifc => 64

/-- Where the size of a message stands in its header. -/
def lengthOffset (cfg : PacketConfig) : ℕ :=
  match cfg.transport with
  | .tcp => 0
  | .udpifc => 52

end PacketConfig

def tupleChunkHeaderSize : ℕ := 4

variable (cfg : PacketConfig)

/-! ## Receiving a message -/

/-- The size a message declares, an `int`. -/
@[irreducible] def declaredSize (bytes : ℕ → UInt8) : ℤ :=
  (ofLittleEndian (readBytes bytes cfg.lengthOffset 4) : ℤ).bmod 4294967296

/-- `readPacket`, for a message that declares `msgSize`, with `bytesRead` bytes there and the pieces
that `recv` gives one after the other. `none` is a closed connection, or one with nothing to
read. -/
def readPacket (msgSize : ℤ) : ℕ → List ℕ → Option ℕ
  | bytesRead, [] =>
    if packetHeaderSize ≤ bytesRead ∧ msgSize ≤ bytesRead ∨ cfg.gpMaxPacketSize ≤ bytesRead then
      some bytesRead
    else none
  | bytesRead, n :: pieces =>
    if packetHeaderSize ≤ bytesRead ∧ msgSize ≤ bytesRead ∨ cfg.gpMaxPacketSize ≤ bytesRead then
      some bytesRead
    else if n = 0 then none
    else readPacket msgSize (bytesRead + min n (cfg.gpMaxPacketSize - bytesRead)) pieces

/-- The checks of `rxThreadFunc` on a datagram. -/
def acceptsDatagram (readCount : ℕ) (len : ℤ) : Bool :=
  decide (cfg.headerSize ≤ readCount ∧ 0 ≤ len ∧ len = readCount)

/-- The transport hands over a message of which `recvBytes` bytes have been received. -/
def Accepts (bytes : ℕ → UInt8) (recvBytes : ℕ) : Prop :=
  match cfg.transport with
  | .tcp => ∃ bytesRead ≤ cfg.gpMaxPacketSize, ∃ pieces,
      readPacket cfg (declaredSize cfg bytes) bytesRead pieces = some recvBytes
  | .udpifc => recvBytes ≤ cfg.gpMaxPacketSize ∧
      acceptsDatagram cfg recvBytes (declaredSize cfg bytes) = true

/-! ## Splitting it -/

/-- The errors of `RecvTupleChunk`, with their details. -/
inductive ChunkError where
  /-- "interconnect error parsing message: insufficient data received" -/
  | insufficientData (msgSize bytesProcessed : ℤ)
  /-- "interconnect error parsing message", "tcSize %d > max %d ..." -/
  | aboveMaximum (tcSize gpMaxPacketSize : ℕ) (bytesProcessed msgSize : ℤ)
  /-- "interconnect error parsing message", "tcSize %d >= conn->msgSize %d" -/
  | notBelowMessage (tcSize : ℕ) (msgSize : ℤ)
  deriving DecidableEq

/-- `TupleChunkListItemData`: where the chunk stands in the message, and its length with its
header. -/
structure TupleChunkListItem where
  inplace : ℤ
  chunkLength : ℕ
  deriving DecidableEq

/-- The length of the chunk at a position, as its header declares it. -/
def tcSize (bytes : ℕ → UInt8) (pos : ℤ) : ℕ :=
  tupleChunkHeaderSize + ofLittleEndian (readBytes bytes pos.toNat 2)

/-- `msgSize - bytesProcessed`. -/
@[irreducible] def remaining (msgSize bytesProcessed : ℤ) : ℤ :=
    (msgSize - bytesProcessed).bmod 4294967296

/-- `bytesProcessed += TYPEALIGN(TUPLE_CHUNK_ALIGN, tcSize)`. -/
@[irreducible] def advance (bytesProcessed : ℤ) (tcSize : ℕ) : ℤ :=
  (bytesProcessed + typeAlign cfg.tupleChunkAlign tcSize).bmod 4294967296

variable {cfg}

theorem tcSize_le (bytes : ℕ → UInt8) (pos : ℤ) : tcSize bytes pos ≤ 65539 := by
  have hlt := ofLittleEndian_lt (readBytes bytes pos.toNat 2)
  rw [length_readBytes] at hlt
  unfold tcSize tupleChunkHeaderSize
  omega

theorem typeAlign_spec (cfg : PacketConfig) (n : ℕ) :
    n ≤ typeAlign cfg.tupleChunkAlign n ∧ typeAlign cfg.tupleChunkAlign n ≤ n + 3 ∧
      cfg.tupleChunkAlign ∣ typeAlign cfg.tupleChunkAlign n := by
  unfold typeAlign
  refine ⟨?_, ?_, Dvd.intro_left _ rfl⟩ <;> obtain h | h := cfg.align_eq <;> rw [h] <;> omega

theorem declaredSize_mem (cfg : PacketConfig) (bytes : ℕ → UInt8) :
    -2 ^ 31 ≤ declaredSize cfg bytes ∧ declaredSize cfg bytes < 2 ^ 31 := by
  unfold declaredSize
  generalize (ofLittleEndian (readBytes bytes cfg.lengthOffset 4) : ℤ) = y
  have hlo : -((4294967296 : ℕ) / 2 : ℤ) ≤ y.bmod 4294967296 := Int.le_bmod (by decide)
  have hhi : y.bmod 4294967296 < (4294967296 + 1) / 2 := Int.bmod_lt (by decide)
  exact ⟨by omega, by omega⟩

theorem remaining_lt (msgSize pos : ℤ) : remaining msgSize pos < 2 ^ 31 := by
  have hpos : 0 < 4294967296 := by norm_num
  have hhi := Int.bmod_lt (x := msgSize - pos) hpos
  rw [remaining]
  push_cast at hhi
  omega

/-- A difference that does not wrap. -/
theorem remaining_eq {msgSize pos : ℤ} (hlo : -2 ^ 31 ≤ msgSize - pos)
    (hhi : msgSize - pos < 2 ^ 31) : remaining msgSize pos = msgSize - pos := by
  rw [remaining]
  exact Int.bmod_eq_of_le_mul_two (by push_cast; omega) (by push_cast; omega)

/-- A sum that does not wrap. -/
theorem advance_eq (cfg : PacketConfig) {pos : ℤ} {n : ℕ} (hpos : 0 ≤ pos)
    (hlt : pos + typeAlign cfg.tupleChunkAlign n < 2 ^ 31) :
    advance cfg pos n = pos + typeAlign cfg.tupleChunkAlign n := by
  rw [advance]
  exact Int.bmod_eq_of_le_mul_two (by push_cast; omega) (by push_cast; omega)

/-- What is left goes down by what the loop advances. -/
theorem remaining_advance (cfg : PacketConfig) {msgSize pos : ℤ} {n : ℕ}
    (h : 0 ≤ remaining msgSize pos) (hn : n ≤ 65539) :
    remaining msgSize (advance cfg pos n) =
      remaining msgSize pos - typeAlign cfg.tupleChunkAlign n := by
  obtain ⟨-, hle, -⟩ := typeAlign_spec cfg n
  have hlt := remaining_lt msgSize pos
  calc remaining msgSize (advance cfg pos n)
      = (msgSize - pos - typeAlign cfg.tupleChunkAlign n).bmod 4294967296 := by
        rw [remaining, advance, Int.sub_bmod_bmod, sub_add_eq_sub_sub]
    _ = (remaining msgSize pos - typeAlign cfg.tupleChunkAlign n).bmod 4294967296 := by
        rw [remaining, Int.bmod_sub_bmod]
    _ = remaining msgSize pos - typeAlign cfg.tupleChunkAlign n :=
        Int.bmod_eq_of_le_mul_two (by push_cast; omega) (by push_cast; omega)

variable (cfg)

/-- The loop of `RecvTupleChunk`. -/
def recvLoop (bytes : ℕ → UInt8) (msgSize bytesProcessed : ℤ) :
    Except ChunkError (List TupleChunkListItem) :=
  if bytesProcessed = msgSize then .ok []
  else if remaining msgSize bytesProcessed < tupleChunkHeaderSize then
    .error (.insufficientData msgSize bytesProcessed)
  else if cfg.gpMaxPacketSize < tcSize bytes bytesProcessed then
    .error (.aboveMaximum (tcSize bytes bytesProcessed) cfg.gpMaxPacketSize bytesProcessed msgSize)
  else if cfg.transport = .tcp ∧ msgSize % 4294967296 ≤ tcSize bytes bytesProcessed then
    .error (.notBelowMessage (tcSize bytes bytesProcessed) msgSize)
  else
    (recvLoop bytes msgSize (advance cfg bytesProcessed (tcSize bytes bytesProcessed))).map
      (⟨bytesProcessed, tcSize bytes bytesProcessed⟩ :: ·)
termination_by (remaining msgSize bytesProcessed).toNat
decreasing_by
  have hpos : (4 : ℤ) ≤ remaining msgSize bytesProcessed :=
    not_lt.mp ‹¬ remaining msgSize bytesProcessed < (tupleChunkHeaderSize : ℤ)›
  have hge := (typeAlign_spec cfg (tcSize bytes bytesProcessed)).1
  have hheader : 4 ≤ tcSize bytes bytesProcessed := Nat.le_add_right 4 _
  rw [remaining_advance cfg (by omega) (tcSize_le _ _)]
  omega

/-- `RecvTupleChunk`, for a message of which `msgSize` bytes are declared. -/
def recvTupleChunk (bytes : ℕ → UInt8) (msgSize : ℤ) :
    Except ChunkError (List TupleChunkListItem) :=
  recvLoop cfg bytes msgSize cfg.headerSize

variable {cfg : PacketConfig} {bytes : ℕ → UInt8} {msgSize pos : ℤ}
    {items : List TupleChunkListItem}

/-! ## One round of the loop -/

@[simp] theorem remaining_self (msgSize : ℤ) : remaining msgSize msgSize = 0 := by
  rw [remaining, sub_self, Int.zero_bmod]

theorem recvLoop_self (cfg : PacketConfig) (bytes : ℕ → UInt8) (msgSize : ℤ) :
    recvLoop cfg bytes msgSize msgSize = .ok [] := by
  rw [recvLoop, if_pos rfl]

theorem recvLoop_step (hleft : 4 ≤ remaining msgSize pos)
    (hmax : tcSize bytes pos ≤ cfg.gpMaxPacketSize)
    (hmsg : cfg.transport = .tcp → tcSize bytes pos < msgSize % 4294967296) :
    recvLoop cfg bytes msgSize pos =
      (recvLoop cfg bytes msgSize (advance cfg pos (tcSize bytes pos))).map
        (⟨pos, tcSize bytes pos⟩ :: ·) := by
  have hne : pos ≠ msgSize := by
    rintro rfl
    rw [remaining_self] at hleft
    exact absurd hleft (by decide)
  have hmsg' : ¬ (cfg.transport = .tcp ∧ msgSize % 4294967296 ≤ tcSize bytes pos) :=
    fun h => absurd (hmsg h.1) h.2.not_gt
  have hleft' : ¬ remaining msgSize pos < (tupleChunkHeaderSize : ℤ) := not_lt.mpr hleft
  rw [recvLoop, if_neg hne, if_neg hleft', if_neg hmax.not_gt, if_neg hmsg']

/-- What a round that raises no error did. -/
theorem recvLoop_ok (h : recvLoop cfg bytes msgSize pos = .ok items) :
    pos = msgSize ∧ items = [] ∨
      4 ≤ remaining msgSize pos ∧ ∃ rest, items = ⟨pos, tcSize bytes pos⟩ :: rest ∧
        recvLoop cfg bytes msgSize (advance cfg pos (tcSize bytes pos)) = .ok rest := by
  rw [recvLoop] at h
  split_ifs at h with hpos hleft hmax hmsg
  · cases h
    exact Or.inl ⟨hpos, rfl⟩
  · cases hrest : recvLoop cfg bytes msgSize (advance cfg pos (tcSize bytes pos)) with
    | error e =>
      rw [hrest] at h
      cases h
    | ok rest =>
      rw [hrest] at h
      cases h
      exact Or.inr ⟨not_lt.mp hleft, rest, rfl, rfl⟩

/-! ## Splitting is exact -/

/-- The chunks follow each other from `pos` to `stop`, with nothing between them but padding. -/
def Tiles (cfg : PacketConfig) (bytes : ℕ → UInt8) (stop : ℤ) : ℤ → List TupleChunkListItem → Prop
  | pos, [] => pos = stop
  | pos, item :: items => item = ⟨pos, tcSize bytes pos⟩ ∧
    Tiles cfg bytes stop (pos + typeAlign cfg.tupleChunkAlign item.chunkLength) items

/-- The chunks tile what follows the header, and each lies inside the message received. -/
structure Exact (cfg : PacketConfig) (bytes : ℕ → UInt8) (recvBytes : ℕ)
    (items : List TupleChunkListItem) : Prop where
  tiles : Tiles cfg bytes (declaredSize cfg bytes) cfg.headerSize items
  after_header : ∀ item ∈ items, (cfg.headerSize : ℤ) ≤ item.inplace
  within_message : ∀ item ∈ items, item.inplace + item.chunkLength ≤ declaredSize cfg bytes
  within_received : ∀ item ∈ items, item.inplace + item.chunkLength ≤ recvBytes

/-- The loop never goes past the size of the message and returns. -/
theorem recvLoop_tiles (hpos : 0 ≤ pos) (hle : pos ≤ msgSize) (hlt : msgSize < 2 ^ 31)
    (h : recvLoop cfg bytes msgSize pos = .ok items) :
    Tiles cfg bytes msgSize pos items ∧
      ∀ item ∈ items, pos ≤ item.inplace ∧ item.inplace + item.chunkLength ≤ msgSize := by
  induction items generalizing pos with
  | nil =>
    obtain ⟨heq, -⟩ | ⟨-, rest, hnil, -⟩ := recvLoop_ok h
    · exact ⟨heq, fun item hitem => absurd hitem List.not_mem_nil⟩
    · cases hnil
  | cons item items ih =>
    obtain ⟨-, hnil⟩ | ⟨hleft, rest, hcons, hrest⟩ := recvLoop_ok h
    · cases hnil
    · cases hcons
      obtain ⟨hge, -, -⟩ := typeAlign_spec cfg (tcSize bytes pos)
      have hremaining : remaining msgSize pos = msgSize - pos := remaining_eq (by omega) (by omega)
      have hnext := remaining_advance cfg (le_trans (by decide) hleft) (tcSize_le bytes pos)
      -- a chunk that is too long leaves less than nothing
      have hfits : pos + typeAlign cfg.tupleChunkAlign (tcSize bytes pos) ≤ msgSize := by
        obtain ⟨heq, -⟩ | ⟨hleft', -⟩ := recvLoop_ok hrest
        · rw [heq, remaining_self] at hnext
          omega
        · omega
      have hadvance : advance cfg pos (tcSize bytes pos) =
          pos + typeAlign cfg.tupleChunkAlign (tcSize bytes pos) :=
        advance_eq cfg hpos (hfits.trans_lt hlt)
      rw [hadvance] at hrest
      obtain ⟨htiles, hinside⟩ := ih (by omega) hfits hrest
      refine ⟨⟨rfl, htiles⟩, List.forall_mem_cons.mpr ⟨⟨le_refl _, ?_⟩, fun item hitem => ?_⟩⟩
      · change pos + (tcSize bytes pos : ℤ) ≤ msgSize
        omega
      · obtain ⟨hfrom, hto⟩ := hinside item hitem
        exact ⟨by omega, hto⟩

/-- A message that is declared shorter than its header raises an error. -/
theorem recvLoop_short (hshort : msgSize < pos) (hwrap : -2 ^ 31 + pos ≤ msgSize) :
    recvLoop cfg bytes msgSize pos ≠ .ok items := by
  intro h
  have hremaining : remaining msgSize pos = msgSize - pos := remaining_eq (by omega) (by omega)
  obtain ⟨heq, -⟩ | ⟨hleft, -⟩ := recvLoop_ok h
  · omega
  · omega

theorem dvd_bmod {a : ℕ} {x : ℤ} (ha : a = 1 ∨ a = 4) (hx : (a : ℤ) ∣ x) :
    (a : ℤ) ∣ x.bmod 4294967296 := by
  have hpow : (a : ℤ) ∣ ((4294967296 : ℕ) : ℤ) := by
    obtain rfl | rfl := ha
    · exact one_dvd _
    · exact ⟨1073741824, by norm_num⟩
  exact (dvd_sub_left hx).mp (hpow.trans Int.dvd_bmod_sub_self)

/-- The loop goes from one aligned position to the next. -/
theorem recvLoop_dvd (hpos : (cfg.tupleChunkAlign : ℤ) ∣ pos)
    (h : recvLoop cfg bytes msgSize pos = .ok items) : (cfg.tupleChunkAlign : ℤ) ∣ msgSize := by
  induction items generalizing pos with
  | nil =>
    obtain ⟨heq, -⟩ | ⟨-, rest, hnil, -⟩ := recvLoop_ok h
    · exact heq ▸ hpos
    · cases hnil
  | cons item items ih =>
    obtain ⟨-, hnil⟩ | ⟨-, rest, hcons, hrest⟩ := recvLoop_ok h
    · cases hnil
    · cases hcons
      obtain ⟨-, -, hdvd⟩ := typeAlign_spec cfg (tcSize bytes pos)
      refine ih ?_ hrest
      rw [advance]
      exact dvd_bmod cfg.align_eq (dvd_add hpos (Int.natCast_dvd_natCast.mpr hdvd))

theorem headerSize_dvd (cfg : PacketConfig) : (cfg.tupleChunkAlign : ℤ) ∣ cfg.headerSize := by
  rw [Int.natCast_dvd_natCast]
  unfold PacketConfig.headerSize
  obtain h | h := cfg.align_eq <;> rw [h] <;> cases cfg.transport <;> decide

/-! ## What is received -/

/-- The message was received whole, and its size is one that the loop can subtract from. On a
machine that aligns chunks, no chunk ends at a size that is not aligned. -/
def Complete (cfg : PacketConfig) (msgSize : ℤ) (recvBytes : ℕ) : Prop :=
  cfg.transport = .udpifc ∨ -2 ^ 31 + 4 ≤ msgSize ∧ msgSize ≤ recvBytes ∨
    ¬ (cfg.tupleChunkAlign : ℤ) ∣ msgSize

theorem readPacket_spec {bytesRead recvBytes : ℕ} {pieces : List ℕ}
    (hle : bytesRead ≤ cfg.gpMaxPacketSize)
    (h : readPacket cfg msgSize bytesRead pieces = some recvBytes) :
    recvBytes ≤ cfg.gpMaxPacketSize ∧
      (4 ≤ recvBytes ∧ msgSize ≤ recvBytes ∨ cfg.gpMaxPacketSize ≤ recvBytes) := by
  induction pieces generalizing bytesRead with
  | nil =>
    rw [readPacket] at h
    split_ifs at h with hgot
    cases h
    exact ⟨hle, hgot⟩
  | cons n pieces ih =>
    rw [readPacket] at h
    split_ifs at h with hgot hclosed
    · cases h
      exact ⟨hle, hgot⟩
    · exact ih (by omega) h

/-- **A message that was received whole is split exactly.** -/
theorem exact_of_complete {recvBytes : ℕ} (haccepts : Accepts cfg bytes recvBytes)
    (hcomplete : Complete cfg (declaredSize cfg bytes) recvBytes)
    (h : recvTupleChunk cfg bytes (declaredSize cfg bytes) = .ok items) :
    Exact cfg bytes recvBytes items := by
  have hmax := cfg.le_max
  unfold Accepts at haccepts
  -- the size is between the header and what was received
  have hsize : (cfg.headerSize : ℤ) ≤ declaredSize cfg bytes ∧ declaredSize cfg bytes ≤ recvBytes ∧
      recvBytes ≤ cfg.gpMaxPacketSize := by
    cases htransport : cfg.transport with
    | udpifc =>
      simp only [htransport, acceptsDatagram, decide_eq_true_eq] at haccepts
      obtain ⟨hle, hheader, -, heq⟩ := haccepts
      omega
    | tcp =>
      have hheader : cfg.headerSize = 4 := by
        unfold PacketConfig.headerSize
        rw [htransport]
      simp only [htransport] at haccepts
      obtain ⟨bytesRead, hle, pieces, hread⟩ := haccepts
      obtain ⟨hrecv, -⟩ := readPacket_spec hle hread
      obtain hudp | ⟨hwrap, hwhole⟩ | halign := hcomplete
      · rw [htransport] at hudp
        cases hudp
      · refine ⟨?_, hwhole, hrecv⟩
        by_contra hshort
        rw [recvTupleChunk, hheader] at h
        exact recvLoop_short (by omega) (by push_cast; omega) h
      · exact absurd (recvLoop_dvd (headerSize_dvd cfg) h) halign
  obtain ⟨htiles, hinside⟩ := recvLoop_tiles (Int.natCast_nonneg _) hsize.1 (by omega) h
  exact ⟨htiles, fun item hitem => (hinside item hitem).1, fun item hitem => (hinside item hitem).2,
    fun item hitem => (hinside item hitem).2.trans hsize.2.1⟩

/-! ## What is not received whole -/

/-- Memory that holds the declared size, one chunk of up to three bytes and then empty chunks. -/
def emptyChunks (size : ℕ) : ℕ → UInt8 :=
  fun i => (toLittleEndian 4 size ++ [UInt8.ofNat (size % 4)]).getD i 0

theorem emptyChunks_eq_zero (size : ℕ) {i : ℕ} (hi : 5 ≤ i) : emptyChunks size i = 0 := by
  rw [emptyChunks, List.getD_eq_default]
  rw [List.length_append, length_toLittleEndian, List.length_singleton]
  exact hi

theorem declaredSize_emptyChunks (htcp : cfg.transport = .tcp) {size : ℕ} (hsize : size < 2 ^ 32) :
    declaredSize cfg (emptyChunks size) = (size : ℤ).bmod 4294967296 := by
  have hoffset : cfg.lengthOffset = 0 := by
    unfold PacketConfig.lengthOffset
    rw [htcp]
  have hholds : HoldsAt (emptyChunks size) 0 (toLittleEndian 4 size) :=
    (holdsAt_append.mp (holdsAt_getD _)).1
  have hpow : 256 ^ 4 = 2 ^ 32 := by norm_num
  have hmod : size % 256 ^ 4 = size := by rw [hpow, Nat.mod_eq_of_lt hsize]
  have hread : ofLittleEndian (readBytes (emptyChunks size) 0 4) = size :=
    hholds.ofLittleEndian.trans hmod
  unfold declaredSize
  rw [hoffset, hread]

theorem tcSize_emptyChunks_first (size : ℕ) : tcSize (emptyChunks size) 4 = 4 + size % 4 := by
  have hholds : HoldsAt (emptyChunks size) 4 [UInt8.ofNat (size % 4)] := by
    have h := (holdsAt_append.mp (holdsAt_getD (toLittleEndian 4 size ++
      [UInt8.ofNat (size % 4)]))).2
    rwa [length_toLittleEndian] at h
  have hbyte : emptyChunks size 4 = UInt8.ofNat (size % 4) := hholds.getElem Nat.one_pos
  have hread : readBytes (emptyChunks size) 4 2 = [UInt8.ofNat (size % 4), 0] := by
    change [emptyChunks size 4, emptyChunks size 5] = _
    rw [hbyte, emptyChunks_eq_zero size (le_refl 5)]
  have hnat : (UInt8.ofNat (size % 4)).toNat = size % 4 := by
    rw [UInt8.toNat_ofNat']
    omega
  change tupleChunkHeaderSize + ofLittleEndian (readBytes (emptyChunks size) 4 2) = _
  rw [hread, ofLittleEndian, ofLittleEndian, ofLittleEndian, hnat]
  rfl

theorem tcSize_emptyChunks (size : ℕ) {p : ℕ} (hp : 5 ≤ p) : tcSize (emptyChunks size) p = 4 := by
  have hread : readBytes (emptyChunks size) p 2 = [0, 0] := by
    change [emptyChunks size (p + 0), emptyChunks size (p + 1)] = _
    rw [emptyChunks_eq_zero size (by omega), emptyChunks_eq_zero size (by omega)]
  rw [tcSize, Int.toNat_natCast, hread]
  rfl

theorem typeAlign_four (cfg : PacketConfig) : typeAlign cfg.tupleChunkAlign 4 = 4 := by
  obtain h | h := cfg.align_eq <;> rw [h] <;> rfl

/-- An `int` that is not large is what it was before it wrapped. -/
theorem bmod_natCast {p : ℕ} (hp : p < 2 ^ 31) : (p : ℤ).bmod 4294967296 = p :=
  Int.bmod_eq_of_le_mul_two (by push_cast; omega) (by push_cast; omega)

theorem remaining_natCast {size p : ℕ} (hle : p ≤ size) (hlt : size - p < 2 ^ 31) :
    remaining ((size : ℤ).bmod 4294967296) p = (size - p : ℕ) := by
  rw [remaining, Int.bmod_sub_bmod, ← Nat.cast_sub hle]
  exact bmod_natCast hlt

/-- Empty chunks are split off up to the declared size, wherever the message ends. -/
theorem recvLoop_emptyChunks {size : ℕ} (hge : 512 ≤ size) (hle : size < 2 ^ 31 + 4) (k : ℕ) {p : ℕ}
    (hp : 8 ≤ p) (hsum : p + 4 * k = size) :
    ∃ items, recvLoop cfg (emptyChunks size) ((size : ℤ).bmod 4294967296)
      ((p : ℤ).bmod 4294967296) = .ok items ∧ (k ≠ 0 → ⟨(size - 4 : ℕ), 4⟩ ∈ items) := by
  induction k generalizing p with
  | zero =>
    obtain rfl : p = size := hsum
    exact ⟨[], recvLoop_self _ _ _, fun hk => absurd rfl hk⟩
  | succ k ih =>
    obtain ⟨items, hitems, hlast⟩ := ih (show 8 ≤ p + 4 by omega) (by omega)
    have hpos : ((p : ℤ).bmod 4294967296) = p := bmod_natCast (by omega)
    have hleft : remaining ((size : ℤ).bmod 4294967296) p = (size - p : ℕ) :=
      remaining_natCast (by omega) (by omega)
    have hchunk : tcSize (emptyChunks size) p = 4 := tcSize_emptyChunks size (by omega)
    have hmod : (size : ℤ).bmod 4294967296 % 4294967296 = size := by
      have h := @Int.bmod_emod (size : ℤ) 4294967296
      omega
    have hmax := cfg.min_le
    have hadvance : advance cfg p 4 = ((p + 4 : ℕ) : ℤ).bmod 4294967296 := by
      rw [advance, typeAlign_four, Nat.cast_add]
    have hstep : recvLoop cfg (emptyChunks size) ((size : ℤ).bmod 4294967296) p =
        (recvLoop cfg (emptyChunks size) ((size : ℤ).bmod 4294967296)
          (advance cfg p (tcSize (emptyChunks size) p))).map
            (⟨p, tcSize (emptyChunks size) p⟩ :: ·) :=
      recvLoop_step (by rw [hleft]; omega) (by rw [hchunk]; omega)
        (fun _ => by rw [hchunk, hmod]; omega)
    rw [hpos, hstep, hchunk, hadvance, hitems]
    refine ⟨_, rfl, fun _ => ?_⟩
    rcases Nat.eq_zero_or_pos k with rfl | hk
    · have hp' : p = size - 4 := by omega
      exact hp' ▸ List.mem_cons_self
    · exact List.mem_cons_of_mem _ (hlast hk.ne')

/-- **A message that was not received whole is split past its end**, when it holds empty chunks. -/
theorem exists_not_exact {recvBytes : ℕ} (haccepts : Accepts cfg bytes recvBytes)
    (hcomplete : ¬ Complete cfg (declaredSize cfg bytes) recvBytes) :
    ∃ bytes' items, declaredSize cfg bytes' = declaredSize cfg bytes ∧
      recvTupleChunk cfg bytes' (declaredSize cfg bytes') = .ok items ∧
      ¬ Exact cfg bytes' recvBytes items := by
  have hmin := cfg.min_le
  have hmax := cfg.le_max
  unfold Complete at hcomplete
  rw [not_or, not_or, not_not] at hcomplete
  obtain ⟨hudp, hwhole, halign⟩ := hcomplete
  have htcp : cfg.transport = .tcp := by
    cases htransport : cfg.transport with
    | tcp => rfl
    | udpifc => exact absurd htransport hudp
  have hheader : cfg.headerSize = 4 := by
    unfold PacketConfig.headerSize
    rw [htcp]
  simp only [Accepts, htcp] at haccepts
  obtain ⟨bytesRead, hle, pieces, hread⟩ := haccepts
  obtain ⟨hrecv, hgot⟩ := readPacket_spec hle hread
  -- the size as the loop counts it
  obtain ⟨hlo, hhi⟩ := declaredSize_mem cfg bytes
  obtain ⟨size, hsize⟩ : ∃ size : ℕ, (size : ℤ) = declaredSize cfg bytes % 4294967296 :=
    ⟨(declaredSize cfg bytes % 4294967296).toNat,
      Int.toNat_of_nonneg (Int.emod_nonneg _ (by norm_num))⟩
  have hbounds : recvBytes < size ∧ 512 ≤ size ∧ size < 2 ^ 31 + 4 := by omega
  obtain ⟨hpast, hge, hlt⟩ := hbounds
  have hbmod : (size : ℤ).bmod 4294967296 = declaredSize cfg bytes := by
    have h := Int.emod_bmod (declaredSize cfg bytes) 4294967296
    rw [Nat.cast_ofNat, ← hsize] at h
    rw [h]
    exact Int.bmod_eq_of_le_mul_two (by push_cast; omega) (by push_cast; omega)
  have hdeclared : declaredSize cfg (emptyChunks size) = declaredSize cfg bytes :=
    (declaredSize_emptyChunks htcp (by omega)).trans hbmod
  have hfirst : typeAlign cfg.tupleChunkAlign (4 + size % 4) = 4 + size % 4 := by
    obtain h | h := cfg.align_eq
    · rw [h, typeAlign]
      omega
    · rw [h] at halign ⊢
      rw [typeAlign]
      omega
  have hsum : 8 + size % 4 + 4 * ((size - 8) / 4) = size := by omega
  obtain ⟨items, hitems, hlast⟩ : ∃ items, recvLoop cfg (emptyChunks size)
        ((size : ℤ).bmod 4294967296) (((8 + size % 4 : ℕ) : ℤ).bmod 4294967296) = .ok items ∧
      ((size - 8) / 4 ≠ 0 → ⟨(size - 4 : ℕ), 4⟩ ∈ items) :=
    recvLoop_emptyChunks hge hlt _ (Nat.le_add_right 8 _) hsum
  have hadvance : advance cfg 4 (4 + size % 4) = ((8 + size % 4 : ℕ) : ℤ).bmod 4294967296 := by
    rw [advance, hfirst]
    push_cast
    ring_nf
  have hleft := remaining_natCast (show 4 ≤ size by omega) (by omega)
  have hmod : (size : ℤ).bmod 4294967296 % 4294967296 = size := by rw [hbmod, hsize]
  have hchunk := tcSize_emptyChunks_first size
  have hstep : recvLoop cfg (emptyChunks size) ((size : ℤ).bmod 4294967296) 4 =
      (recvLoop cfg (emptyChunks size) ((size : ℤ).bmod 4294967296)
        (advance cfg 4 (tcSize (emptyChunks size) 4))).map
          (⟨4, tcSize (emptyChunks size) 4⟩ :: ·) :=
    recvLoop_step (hleft.ge.trans' (by omega)) (by rw [hchunk]; omega)
      (fun _ => by rw [hchunk, hmod]; omega)
  rw [hchunk, hadvance, hitems] at hstep
  refine ⟨emptyChunks size, ⟨4, 4 + size % 4⟩ :: items, hdeclared, ?_, fun hexact => ?_⟩
  · rw [hdeclared, ← hbmod, recvTupleChunk, hheader]
    exact hstep
  · have hinside := hexact.within_received _ (List.mem_cons_of_mem _ (hlast (by omega)))
    change ((size - 4 : ℕ) : ℤ) + (4 : ℕ) ≤ recvBytes at hinside
    omega

/-- **Splitting is exact in a message received whole, and in no other.** -/
theorem split_iff {recvBytes : ℕ} (haccepts : Accepts cfg bytes recvBytes) :
    (∀ bytes' items, declaredSize cfg bytes' = declaredSize cfg bytes →
        recvTupleChunk cfg bytes' (declaredSize cfg bytes') = .ok items →
        Exact cfg bytes' recvBytes items) ↔
      Complete cfg (declaredSize cfg bytes) recvBytes := by
  constructor
  · intro h
    by_contra hcomplete
    obtain ⟨bytes', items, hdeclared, hitems, hexact⟩ := exists_not_exact haccepts hcomplete
    exact hexact (h bytes' items hdeclared hitems)
  · intro hcomplete bytes' items hdeclared hitems
    have haccepts' : Accepts cfg bytes' recvBytes := by
      unfold Accepts
      rw [hdeclared]
      exact haccepts
    exact exact_of_complete haccepts' (hdeclared ▸ hcomplete) hitems

end Hdb.Interconnect
