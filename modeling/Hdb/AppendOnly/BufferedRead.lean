import Mathlib

/-!
# Buffered reading of a segment file

A `BufferedRead` holds the bytes of one large read. A buffer that is asked for lies in it, or starts
in the memory before it: when the rest of a large read is shorter than the buffer, that rest is
copied in front of the memory of the next large read.

**Addresses.** They count from the start of the large-read memory, so the before memory has the
negative ones. `Loaded` says which bytes of the file the memory holds; the end of a short large
read is a position at which a block may end.

Main results: what `setFile`, `setTemporaryRange`, `getNextBuffer` and `growBuffer` do from a
loaded state (`setFile_spec`, `setTemporaryRange_spec`, `getNextBuffer_spec`, `growBuffer_spec`).
-/

namespace Hdb.AppendOnly

/-- A file open for reading. A read of `n` bytes may deliver fewer, but at least one before the end
of the file. -/
structure ReadFile where
  bytes : List UInt8
  actualLen : ℕ → ℕ → ℕ
  actualLen_le : ∀ pos n, actualLen pos n ≤ min n (bytes.length - pos)
  actualLen_pos : ∀ pos n, 0 < n → pos < bytes.length → 0 < actualLen pos n

/-- The byte at an offset of the file. -/
def ReadFile.byteAt (f : ReadFile) (pos : ℤ) : UInt8 := f.bytes.getD pos.toNat 0

/-- `len` bytes from an offset of the file. -/
def ReadFile.slice (f : ReadFile) (pos len : ℤ) : List UInt8 :=
  (f.bytes.drop pos.toNat).take len.toNat

/-- The lengths given to `BufferedReadInit`. The memory is as long as an `int32` can say. -/
structure BufferedReadLens where
  maxBufferLen : ℤ
  maxLargeReadLen : ℤ
  maxBufferLen_pos : 0 < maxBufferLen
  maxBufferLen_le : maxBufferLen ≤ maxLargeReadLen
  memoryLen_lt : maxBufferLen + maxLargeReadLen < 2 ^ 31

inductive BufferedReadError
  /-- "read beyond eof in table \"%s\" file \"%s\", ..." -/
  | readBeyondEof
  /-- "unable to seek to position for table \"%s\" in file \"%s\": %m" -/
  | unableToSeek
  /-- "Unexpected internal error, largeReadLen is set to 0 before calling BufferedReadIo. ..." -/
  | largeReadLenZero
  /-- "Read ahead length %d is greater than maximum buffer length %d" -/
  | readAheadTooLong (readAhead maxBuffer : ℤ)
  deriving DecidableEq

structure BufferedRead where
  memory : ℤ → UInt8
  largeReadPosition : ℤ
  largeReadLen : ℤ
  bufferOffset : ℤ
  bufferLen : ℤ
  /-- The position of the file descriptor. -/
  filePos : ℤ
  fileLen : ℤ
  haveTemporaryLimitInEffect : Bool
  temporaryLimitFileLen : ℤ

/-- The address and the length of a buffer that is handed out. -/
structure Buffer where
  addr : ℤ
  len : ℤ
  deriving DecidableEq

/-- The conversion of an `int64` to `int32`. -/
def castInt32 (x : ℤ) : ℤ := x.bmod (2 ^ 32)

namespace BufferedRead

variable (lens : BufferedReadLens) (f : ReadFile)

def init : BufferedRead where
  memory := fun _ => 0
  largeReadPosition := 0
  largeReadLen := 0
  bufferOffset := 0
  bufferLen := 0
  filePos := 0
  fileLen := 0
  haveTemporaryLimitInEffect := false
  temporaryLimitFileLen := 0

def inEffectFileLen (st : BufferedRead) : ℤ :=
  if st.haveTemporaryLimitInEffect then st.temporaryLimitFileLen else st.fileLen

/-- The length of the next large read when `remainingFileLen` bytes are left. -/
def nextReadLen (remainingFileLen : ℤ) : ℤ :=
  if remainingFileLen > lens.maxLargeReadLen then lens.maxLargeReadLen
  else castInt32 remainingFileLen

/-- The loop of `BufferedReadIo`: read at `addr` until nothing is left to read. Every pass reads
something, so the length itself is enough fuel. -/
def ioLoop : (fuel : ℕ) → (memory : ℤ → UInt8) → (filePos addr largeReadLen : ℤ) →
    Except BufferedReadError ((ℤ → UInt8) × ℤ)
  | 0, memory, filePos, _, _ => .ok (memory, filePos)
  | fuel + 1, memory, filePos, addr, largeReadLen =>
    if largeReadLen ≤ 0 then .ok (memory, filePos)
    else
      let actualLen := f.actualLen filePos.toNat largeReadLen.toNat
      if actualLen = 0 then .error .readBeyondEof
      else
        ioLoop fuel
          (fun i => if addr ≤ i ∧ i < addr + actualLen then f.byteAt (filePos + (i - addr))
            else memory i)
          (filePos + actualLen) (addr + actualLen) (largeReadLen - actualLen)

/-- `BufferedReadIo` -/
def io (st : BufferedRead) : Except BufferedReadError BufferedRead :=
  (ioLoop f st.largeReadLen.toNat st.memory st.filePos 0 st.largeReadLen).map fun r =>
    { st with memory := r.1, filePos := r.2 }

/-- `BufferedReadSetFile` -/
def setFile (fileLen : ℤ) (st : BufferedRead) : Except BufferedReadError BufferedRead :=
  let st := { st with
    fileLen, filePos := 0, haveTemporaryLimitInEffect := false, temporaryLimitFileLen := 0 }
  if fileLen > 0 then io f { st with largeReadLen := nextReadLen lens fileLen } else .ok st

/-- The memory after the rest of the large read, which is `beforeLen` long if the large read is as
long as it can be, has been copied in front of it. -/
def copyBefore (st : BufferedRead) (i : ℤ) : UInt8 :=
  let beforeLen := lens.maxLargeReadLen - st.bufferOffset
  if -beforeLen ≤ i ∧ i < 0 then st.memory (st.bufferOffset + (i + beforeLen)) else st.memory i

/-- `BufferedReadUseBeforeBuffer` -/
def useBeforeBuffer (maxReadAheadLen : ℤ) (st : BufferedRead) :
    Except BufferedReadError (BufferedRead × Buffer) :=
  let nextPosition := st.largeReadPosition + st.largeReadLen
  if nextPosition = st.inEffectFileLen then
    -- No more file to read.
    let bufferLen := st.largeReadLen - st.bufferOffset
    .ok ({ st with bufferLen }, ⟨st.bufferOffset, bufferLen⟩)
  else
    let nextLen := nextReadLen lens (st.inEffectFileLen - nextPosition)
    let beforeLen := lens.maxLargeReadLen - st.bufferOffset
    if nextLen = 0 then .error .largeReadLenZero
    else
      let extraLen := min (maxReadAheadLen - beforeLen) nextLen
      (io f { st with
        memory := copyBefore lens st, largeReadPosition := nextPosition
        largeReadLen := nextLen }).map fun st =>
          ({ st with bufferOffset := -beforeLen, bufferLen := beforeLen + extraLen },
            ⟨-beforeLen, beforeLen + extraLen⟩)

/-- The first position that `BufferedReadSetTemporaryRange` looks for in memory. -/
def windowBegin (st : BufferedRead) : ℤ :=
  if st.bufferOffset < 0 then st.largeReadPosition + st.bufferOffset else st.largeReadPosition

/-- `BufferedReadSetTemporaryRange` -/
def setTemporaryRange (beginFileOffset afterFileOffset : ℤ) (st : BufferedRead) :
    Except BufferedReadError BufferedRead :=
  let largeReadAfterPos := st.largeReadPosition + st.largeReadLen
  let limited := { st with
    bufferLen := 0, haveTemporaryLimitInEffect := true, temporaryLimitFileLen := afterFileOffset }
  if st.windowBegin ≤ beginFileOffset ∧ beginFileOffset < largeReadAfterPos then
    .ok { limited with bufferOffset := beginFileOffset - st.largeReadPosition }
  else
    let seekPos := st.filePos + (beginFileOffset - largeReadAfterPos)
    if seekPos ≠ beginFileOffset then .error .unableToSeek
    else
      let largeReadLen := nextReadLen lens (afterFileOffset - beginFileOffset)
      let next := { limited with
        filePos := seekPos, bufferOffset := 0, largeReadPosition := beginFileOffset, largeReadLen }
      if largeReadLen > 0 then io f next else .ok next

/-- `BufferedReadNextBufferPosition` -/
def nextBufferPosition (st : BufferedRead) : ℤ :=
  st.largeReadPosition + st.bufferOffset + st.bufferLen

/-- `BufferedReadGetNextBuffer`; `none` is the null pointer. -/
def getNextBuffer (maxReadAheadLen : ℤ) (st : BufferedRead) :
    Except BufferedReadError (BufferedRead × Option Buffer) :=
  if maxReadAheadLen > lens.maxBufferLen then
    .error (.readAheadTooLong maxReadAheadLen lens.maxBufferLen)
  else
    let inEffectFileLen := st.inEffectFileLen
    -- Finish previous buffer.
    let st := { st with bufferOffset := st.bufferOffset + st.bufferLen, bufferLen := 0 }
    if st.largeReadPosition = inEffectFileLen then
      .ok ({ st with haveTemporaryLimitInEffect := false }, none)
    else if st.bufferOffset = st.largeReadLen then
      -- Used exactly all of it. Attempt read more.
      let largeReadPosition := st.largeReadPosition + st.largeReadLen
      let largeReadLen := nextReadLen lens (inEffectFileLen - largeReadPosition)
      let st := { st with largeReadPosition, bufferOffset := 0, largeReadLen }
      if largeReadLen = 0 then .ok ({ st with haveTemporaryLimitInEffect := false }, none)
      else
        let bufferLen := min maxReadAheadLen largeReadLen
        (io f st).map fun st => ({ st with bufferLen }, some ⟨0, bufferLen⟩)
    else if st.bufferOffset + maxReadAheadLen > st.largeReadLen then
      (useBeforeBuffer lens f maxReadAheadLen st).map fun r => (r.1, some r.2)
    else
      .ok ({ st with bufferLen := maxReadAheadLen }, some ⟨st.bufferOffset, maxReadAheadLen⟩)

/-- `BufferedReadGrowBuffer` -/
def growBuffer (newMaxReadAheadLen : ℤ) (st : BufferedRead) :
    Except BufferedReadError (BufferedRead × Buffer) :=
  if st.bufferOffset + newMaxReadAheadLen > st.largeReadLen then
    useBeforeBuffer lens f newMaxReadAheadLen st
  else
    .ok ({ st with bufferLen := newMaxReadAheadLen }, ⟨st.bufferOffset, newMaxReadAheadLen⟩)

/-- The bytes of a buffer that was handed out. -/
def bufferBytes (st : BufferedRead) (b : Buffer) : List UInt8 :=
  (List.range b.len.toNat).map fun k : ℕ => st.memory (b.addr + k)

/-! ## One large read -/

variable {lens : BufferedReadLens} {f : ReadFile} {st st' : BufferedRead}

theorem castInt32_of_mem {x : ℤ} (h0 : 0 ≤ x) (h : x < 2 ^ 31) : castInt32 x = x :=
  Int.bmod_eq_of_le (by omega) (by omega)

theorem nextReadLen_eq (lens : BufferedReadLens) {x : ℤ} (h0 : 0 ≤ x) :
    nextReadLen lens x = min lens.maxLargeReadLen x := by
  have hpos := lens.maxBufferLen_pos
  have hlt := lens.memoryLen_lt
  rw [nextReadLen]
  split_ifs with h
  · exact (min_eq_left (le_of_lt h)).symm
  · rw [castInt32_of_mem h0 (by omega), min_eq_right (not_lt.mp h)]

/-- The loop fills the memory from `addr` on with the bytes from the file position on. -/
theorem ioLoop_spec (fuel : ℕ) (memory : ℤ → UInt8) (filePos addr n : ℤ) (hfuel : n ≤ fuel)
    (hn : 0 ≤ n) (hpos : 0 ≤ filePos) (hend : filePos + n ≤ f.bytes.length) :
    ioLoop f fuel memory filePos addr n =
      .ok (fun i => if addr ≤ i ∧ i < addr + n then f.byteAt (filePos + (i - addr)) else memory i,
        filePos + n) := by
  have hnone : ∀ m : ℤ → UInt8,
      (fun i => if addr ≤ i ∧ i < addr + 0 then f.byteAt (filePos + (i - addr)) else m i) = m := by
    intro m
    funext i
    exact if_neg (by omega)
  induction fuel generalizing memory filePos addr n with
  | zero =>
    obtain rfl : n = 0 := by omega
    rw [ioLoop, hnone, add_zero]
  | succ fuel ih =>
    rw [ioLoop]
    by_cases h0 : n ≤ 0
    · obtain rfl : n = 0 := by omega
      rw [if_pos h0, hnone, add_zero]
    · rw [if_neg h0]
      have hle := f.actualLen_le filePos.toNat n.toNat
      have hlt := f.actualLen_pos filePos.toNat n.toNat (by omega) (by omega)
      set actual := f.actualLen filePos.toNat n.toNat
      rw [if_neg (by omega), ih _ _ _ _ (by omega) (by omega) (by omega) (by omega)
        (fun m => by funext i; exact if_neg (by omega))]
      congr 2
      · funext i
        by_cases h1 : addr ≤ i ∧ i < addr + actual
        · rw [if_neg (by omega), if_pos h1, if_pos (by omega)]
        · rw [if_neg h1]
          by_cases h2 : addr + actual ≤ i ∧ i < addr + actual + (n - actual)
          · rw [if_pos h2, if_pos (by omega)]
            congr 1
            omega
          · rw [if_neg h2, if_neg (by omega)]
      · omega

/-- The state after a large read that the file is long enough for. -/
def afterIo (f : ReadFile) (st : BufferedRead) : BufferedRead :=
  { st with
    memory := fun i => if 0 ≤ i ∧ i < st.largeReadLen then f.byteAt (st.filePos + i)
      else st.memory i
    filePos := st.filePos + st.largeReadLen }

theorem io_eq (hlen : 0 ≤ st.largeReadLen) (hpos : 0 ≤ st.filePos)
    (hend : st.filePos + st.largeReadLen ≤ f.bytes.length) : io f st = .ok (afterIo f st) := by
  rw [io, ioLoop_spec _ _ _ _ _ (by omega) hlen hpos hend]
  simp only [zero_add, sub_zero]
  rfl

/-! ## What the memory holds -/

/-- The memory holds the bytes of the file around the large read, from the buffer on if that starts
in the before memory. A large read is as long as it can be, or ends at one of the positions `ends`.
It does not reach beyond the file length in effect, unless that is where the next read begins. -/
structure Loaded (lens : BufferedReadLens) (f : ReadFile) (ends : ℤ → Prop) (st : BufferedRead) :
    Prop where
  position : 0 ≤ st.largeReadPosition
  len_nonneg : 0 ≤ st.largeReadLen
  full : st.largeReadLen = lens.maxLargeReadLen ∨ ends (st.largeReadPosition + st.largeReadLen)
  len_le : st.largeReadLen ≤ lens.maxLargeReadLen
  end_le : st.largeReadPosition + st.largeReadLen ≤ f.bytes.length
  filePos : st.filePos = st.largeReadPosition + st.largeReadLen
  offset : -lens.maxBufferLen ≤ st.bufferOffset
  offset_nonneg : 0 ≤ st.largeReadPosition + st.bufferOffset
  bufferLen : 0 ≤ st.bufferLen
  buffer_le : st.bufferOffset + st.bufferLen ≤ st.largeReadLen
  empty : st.largeReadLen = 0 → st.bufferOffset = 0
  data : ∀ i, min st.bufferOffset 0 ≤ i → i < st.largeReadLen →
    st.memory i = f.byteAt (st.largeReadPosition + i)
  fileLen : st.fileLen = f.bytes.length
  limit_le : st.inEffectFileLen ≤ f.bytes.length
  limit : st.largeReadPosition + st.largeReadLen ≤ st.inEffectFileLen ∨
    st.largeReadPosition = st.inEffectFileLen ∧ st.bufferOffset = 0 ∧ st.bufferLen = 0

/-- A buffer with the bytes `[pos, pos + len)` of the file has been handed out. -/
structure Delivered (lens : BufferedReadLens) (f : ReadFile) (ends : ℤ → Prop)
    (st st' : BufferedRead) (b : Buffer) (pos len : ℤ) : Prop where
  loaded : Loaded lens f ends st'
  addr : b.addr = st'.bufferOffset
  len_eq : b.len = st'.bufferLen
  pos_eq : st'.largeReadPosition + st'.bufferOffset = pos
  bufferLen_eq : st'.bufferLen = len
  temporary : st'.haveTemporaryLimitInEffect = st.haveTemporaryLimitInEffect
  limit : st'.temporaryLimitFileLen = st.temporaryLimitFileLen

theorem bufferBytes_eq {ends : ℤ → Prop} {b : Buffer} {pos len : ℤ}
    (h : Delivered lens f ends st st' b pos len) : bufferBytes st' b = f.slice pos len := by
  have hl := h.loaded
  have hpos := hl.offset_nonneg
  have hend := hl.end_le
  have hle := hl.buffer_le
  have hlen := hl.bufferLen
  rw [bufferBytes, ReadFile.slice, h.addr, h.len_eq, ← h.pos_eq, ← h.bufferLen_eq]
  refine List.ext_getElem ?_ fun k h1 h2 => ?_
  · simp only [List.length_map, List.length_range, List.length_take, List.length_drop]
    omega
  · simp only [List.length_map, List.length_range] at h1
    rw [List.getElem_map, List.getElem_range, List.getElem_take, List.getElem_drop,
      hl.data _ (by omega) (by omega), ReadFile.byteAt, List.getD_eq_getElem _ _ (by omega)]
    congr 1
    omega

/-! ## The functions -/

variable {ends : ℤ → Prop} {n p : ℤ}

/-- No block ends inside the `n` bytes from `p` on, before `limit`. -/
def NoEndWithin (ends : ℤ → Prop) (limit p n : ℤ) : Prop :=
  ∀ e, ends e → p < e → e < limit → p + n ≤ e

theorem Loaded.advance (h : Loaded lens f ends st) :
    Loaded lens f ends
      { st with bufferOffset := st.bufferOffset + st.bufferLen, bufferLen := 0 } where
  position := h.position
  len_nonneg := h.len_nonneg
  full := h.full
  len_le := h.len_le
  end_le := h.end_le
  filePos := h.filePos
  offset := le_trans h.offset (le_add_of_nonneg_right h.bufferLen)
  offset_nonneg := by
    rw [← add_assoc]
    exact add_nonneg h.offset_nonneg h.bufferLen
  bufferLen := le_refl 0
  buffer_le := by
    rw [add_zero]
    exact h.buffer_le
  empty := fun h0 => by
    have := h.empty h0
    have := h.buffer_le
    have := h.bufferLen
    dsimp only at *
    omega
  data := fun i hi hlt => h.data i (by have := h.bufferLen; dsimp only at hi; omega) hlt
  fileLen := h.fileLen
  limit_le := h.limit_le
  limit := by
    obtain hl | ⟨hp, ho, hb⟩ := h.limit
    · exact Or.inl hl
    · refine Or.inr ⟨hp, ?_, rfl⟩
      rw [ho, hb]
      rfl

/-- A buffer that fits in what is left of the large read. -/
theorem Loaded.within (h : Loaded lens f ends st) (hn : 0 ≤ n)
    (hle : st.bufferOffset + n ≤ st.largeReadLen)
    (hend : st.largeReadPosition + st.largeReadLen ≤ st.inEffectFileLen) :
    Delivered lens f ends st { st with bufferLen := n } ⟨st.bufferOffset, n⟩
      (st.largeReadPosition + st.bufferOffset) n where
  loaded :=
    { h with
      bufferLen := hn
      buffer_le := hle
      limit := Or.inl hend }
  addr := rfl
  len_eq := rfl
  pos_eq := rfl
  bufferLen_eq := rfl
  temporary := rfl
  limit := rfl

/-- A large read that starts at a position `pos` of the file before the limit, with the buffer that
is handed out of it and of the memory before. -/
theorem Loaded.next (h : Loaded lens f ends st) (s : BufferedRead) (offset len : ℤ)
    (hsrc : s.fileLen = st.fileLen) (hends : ends s.inEffectFileLen)
    (hlimit : s.inEffectFileLen ≤ f.bytes.length) (hpos : 0 ≤ s.largeReadPosition)
    (hfile : s.filePos = s.largeReadPosition)
    (hlen : s.largeReadLen =
      min lens.maxLargeReadLen (s.inEffectFileLen - s.largeReadPosition))
    (hlt : s.largeReadPosition < s.inEffectFileLen)
    (hoffset : -lens.maxBufferLen ≤ offset) (hoff : offset ≤ 0)
    (hnonneg : 0 ≤ s.largeReadPosition + offset) (hl0 : 0 ≤ len)
    (hle : offset + len ≤ s.largeReadLen)
    (hmem : ∀ i, offset ≤ i → i < 0 → s.memory i = f.byteAt (s.largeReadPosition + i)) :
    io f s = .ok (afterIo f s) ∧
      Delivered lens f ends s { afterIo f s with bufferOffset := offset, bufferLen := len }
        ⟨offset, len⟩ (s.largeReadPosition + offset) len := by
  have hM : 0 < lens.maxLargeReadLen := lt_of_lt_of_le lens.maxBufferLen_pos lens.maxBufferLen_le
  refine ⟨io_eq (by omega) (by omega) (by omega), ?_, rfl, rfl, rfl, rfl, rfl, rfl⟩
  constructor
  · exact hpos
  · show 0 ≤ s.largeReadLen
    omega
  · show s.largeReadLen = _ ∨ ends (s.largeReadPosition + s.largeReadLen)
    by_cases hfull : s.largeReadLen = lens.maxLargeReadLen
    · exact Or.inl hfull
    · refine Or.inr ?_
      have hend : s.largeReadPosition + s.largeReadLen = s.inEffectFileLen := by omega
      rwa [hend]
  · show s.largeReadLen ≤ lens.maxLargeReadLen
    omega
  · show s.largeReadPosition + s.largeReadLen ≤ f.bytes.length
    omega
  · show s.filePos + s.largeReadLen = s.largeReadPosition + s.largeReadLen
    rw [hfile]
  · exact hoffset
  · exact hnonneg
  · exact hl0
  · exact hle
  · intro h0
    change s.largeReadLen = 0 at h0
    omega
  · intro i hi hlt
    by_cases hi0 : 0 ≤ i
    · exact (if_pos ⟨hi0, hlt⟩).trans (by rw [hfile]; rfl)
    · refine (if_neg (by omega)).trans (hmem i ?_ (by omega))
      dsimp only at hi
      omega
  · exact hsrc.trans h.fileLen
  · exact hlimit
  · refine Or.inl ?_
    show s.largeReadPosition + s.largeReadLen ≤ s.inEffectFileLen
    omega

/-- A large read that would start at the limit is empty. -/
theorem Loaded.atLimit (h : Loaded lens f ends st) {s : BufferedRead}
    (hsrc : s.fileLen = st.fileLen) (hends : ends s.inEffectFileLen)
    (hlimit : s.inEffectFileLen ≤ f.bytes.length) (hpos : 0 ≤ s.largeReadPosition)
    (hfile : s.filePos = s.largeReadPosition) (hlen : s.largeReadLen = 0)
    (hat : s.largeReadPosition = s.inEffectFileLen) (hoffset : s.bufferOffset = 0)
    (hbuf : s.bufferLen = 0) : Loaded lens f ends s := by
  have hM := lens.maxBufferLen_pos
  have hle := lens.maxBufferLen_le
  constructor
  · exact hpos
  · exact le_of_eq hlen.symm
  · rw [hlen, add_zero, hat]
    exact Or.inr hends
  · omega
  · omega
  · omega
  · omega
  · omega
  · exact le_of_eq hbuf.symm
  · omega
  · exact fun _ => hoffset
  · intro i hi hlt
    omega
  · exact hsrc.trans h.fileLen
  · exact hlimit
  · exact Or.inr ⟨hat, hoffset, hbuf⟩

/-- The rest of a large read before the memory of the next one. -/
theorem useBeforeBuffer_spec (h : Loaded lens f ends st) (hends : ends st.inEffectFileLen)
    (hn : n ≤ lens.maxBufferLen) (hlt : st.bufferOffset < st.largeReadLen)
    (hover : st.largeReadLen < st.bufferOffset + n)
    (hend : st.largeReadPosition + st.largeReadLen ≤ st.inEffectFileLen)
    (hblock : NoEndWithin ends st.inEffectFileLen (st.largeReadPosition + st.bufferOffset) n) :
    ∃ st' b, useBeforeBuffer lens f n st = .ok (st', b) ∧
      Delivered lens f ends st st' b (st.largeReadPosition + st.bufferOffset)
        (min n (st.inEffectFileLen - (st.largeReadPosition + st.bufferOffset))) := by
  rw [useBeforeBuffer]
  by_cases hlast : st.largeReadPosition + st.largeReadLen = st.inEffectFileLen
  · rw [if_pos hlast]
    have hmin : min n (st.inEffectFileLen - (st.largeReadPosition + st.bufferOffset)) =
        st.largeReadLen - st.bufferOffset := by omega
    rw [hmin]
    exact ⟨_, _, rfl, h.within (by omega) (by omega) hend⟩
  · rw [if_neg hlast]
    -- No block ends where the large read does, so it is as long as it can be.
    have hfull : st.largeReadLen = lens.maxLargeReadLen := by
      obtain hfull | he := h.full
      · exact hfull
      · have := hblock _ he (by omega) (by omega)
        omega
    have hle := lens.maxBufferLen_le
    have hM := lens.maxBufferLen_pos
    have hP := h.position
    have hL := h.len_nonneg
    have hnext := nextReadLen_eq lens
      (show 0 ≤ st.inEffectFileLen - (st.largeReadPosition + st.largeReadLen) by omega)
    obtain ⟨hio, hd⟩ := h.next { st with
        memory := copyBefore lens st, largeReadPosition := st.largeReadPosition + st.largeReadLen
        largeReadLen := nextReadLen lens
          (st.inEffectFileLen - (st.largeReadPosition + st.largeReadLen)) }
      (-(lens.maxLargeReadLen - st.bufferOffset))
      (min n (st.inEffectFileLen - (st.largeReadPosition + st.bufferOffset)))
      rfl hends h.limit_le (add_nonneg hP hL) h.filePos hnext (lt_of_le_of_ne hend hlast) (by omega)
        (by omega)
      (by dsimp only; omega) (by omega) (by dsimp only; omega) (fun i hi h0 => by
        show copyBefore lens st i = _
        rw [copyBefore, if_pos ⟨hi, h0⟩, h.data _ (by omega) (by omega)]
        congr 1
        dsimp only
        omega)
    rw [if_neg (by omega), hio]
    refine ⟨_, _, rfl, ?_⟩
    have hp : st.largeReadPosition + st.largeReadLen + -(lens.maxLargeReadLen - st.bufferOffset) =
        st.largeReadPosition + st.bufferOffset := by omega
    have hlen : lens.maxLargeReadLen - st.bufferOffset +
        min (n - (lens.maxLargeReadLen - st.bufferOffset)) (nextReadLen lens
        (st.inEffectFileLen - (st.largeReadPosition + st.largeReadLen))) =
        min n (st.inEffectFileLen - (st.largeReadPosition + st.bufferOffset)) := by omega
    rw [hlen]
    exact ⟨hd.loaded, rfl, rfl, hp, rfl, rfl, rfl⟩

/-- **The next buffer.** At the limit the null pointer is returned and the temporary limit is
forgotten; before it, the next `n` bytes of the file or those that are left. -/
theorem getNextBuffer_spec (h : Loaded lens f ends st) (hends : ends st.inEffectFileLen)
    (hn : 0 < n) (hle : n ≤ lens.maxBufferLen)
    (hblock : NoEndWithin ends st.inEffectFileLen st.nextBufferPosition n) :
    (st.nextBufferPosition = st.inEffectFileLen ∧
      ∃ st', getNextBuffer lens f n st = .ok (st', none) ∧
      Loaded lens f ends st' ∧ st'.nextBufferPosition = st.nextBufferPosition ∧
      st'.haveTemporaryLimitInEffect = false) ∨
    (st.nextBufferPosition < st.inEffectFileLen ∧ ∃ st' b,
      getNextBuffer lens f n st = .ok (st', some b) ∧
      Delivered lens f ends st st' b st.nextBufferPosition
        (min n (st.inEffectFileLen - st.nextBufferPosition))) := by
  have ha := h.advance
  have hlen := h.bufferLen
  have hbuf := h.buffer_le
  have hM := lens.maxBufferLen_le
  have hP := h.position
  have hL := h.len_nonneg
  have hlimit := h.limit
  have hforget : ∀ s : BufferedRead, Loaded lens f ends s →
      Loaded lens f ends { s with haveTemporaryLimitInEffect := false } := fun s hs =>
    { hs with
      limit_le := le_of_eq hs.fileLen
      limit := Or.inl (hs.end_le.trans (le_of_eq hs.fileLen.symm)) }
  have hempty := h.empty
  rw [nextBufferPosition] at hblock ⊢
  rw [getNextBuffer, if_neg (by omega)]
  by_cases hstart : st.largeReadPosition = st.inEffectFileLen
  · -- Nothing of the large read is before the limit.
    have hpos : st.largeReadPosition + st.bufferOffset + st.bufferLen = st.inEffectFileLen := by
      omega
    rw [if_pos hstart]
    exact Or.inl ⟨hpos, _, rfl, hforget _ ha, by rw [nextBufferPosition]; dsimp only; omega, rfl⟩
  · have hend : st.largeReadPosition + st.largeReadLen ≤ st.inEffectFileLen := by omega
    rw [if_neg hstart]
    by_cases hused : st.bufferOffset + st.bufferLen = st.largeReadLen
    · rw [if_pos hused]
      have hnext := nextReadLen_eq lens
        (show 0 ≤ st.inEffectFileLen - (st.largeReadPosition + st.largeReadLen) by omega)
      by_cases hlast : st.largeReadPosition + st.largeReadLen = st.inEffectFileLen
      · have hzero : nextReadLen lens
            (st.inEffectFileLen - (st.largeReadPosition + st.largeReadLen)) = 0 := by omega
        refine Or.inl ⟨by omega, ?_⟩
        rw [if_pos hzero]
        refine ⟨_, rfl, hforget _ ?_, by rw [nextBufferPosition]; dsimp only; omega, rfl⟩
        exact ha.atLimit rfl hends h.limit_le (by dsimp only; omega) h.filePos
          (by dsimp only; omega) hlast
          rfl rfl
      · have hnonzero : nextReadLen lens
            (st.inEffectFileLen - (st.largeReadPosition + st.largeReadLen)) ≠ 0 := by omega
        refine Or.inr ⟨by omega, ?_⟩
        obtain ⟨hio, hd⟩ := h.next { st with
            bufferOffset := 0, bufferLen := 0
            largeReadPosition := st.largeReadPosition + st.largeReadLen
            largeReadLen := nextReadLen lens
              (st.inEffectFileLen - (st.largeReadPosition + st.largeReadLen)) } 0
          (min n (st.inEffectFileLen - (st.largeReadPosition + st.largeReadLen)))
          rfl hends h.limit_le (add_nonneg hP hL) h.filePos hnext (lt_of_le_of_ne hend hlast)
          (by omega) (le_refl 0) (by dsimp only; omega) (by omega) (by dsimp only; omega)
          (fun i hi h0 => absurd hi (not_le.mpr h0))
        rw [if_neg hnonzero, hio]
        have hlen' : min n (nextReadLen lens
            (st.inEffectFileLen - (st.largeReadPosition + st.largeReadLen))) =
            min n (st.inEffectFileLen - (st.largeReadPosition + st.largeReadLen)) := by omega
        refine ⟨_, _, rfl, ?_⟩
        rw [hlen', add_assoc, hused]
        exact ⟨hd.loaded, rfl, rfl, add_zero _, rfl, rfl, rfl⟩
    · rw [if_neg hused]
      refine Or.inr ⟨by omega, ?_⟩
      by_cases hover : st.largeReadLen < st.bufferOffset + st.bufferLen + n
      · obtain ⟨st', b, hrun, hd⟩ := useBeforeBuffer_spec ha hends hle (by dsimp only; omega) hover
          hend (by rw [add_assoc] at hblock; exact hblock)
        rw [if_pos hover, hrun]
        refine ⟨st', b, rfl, ?_⟩
        rw [add_assoc]
        exact ⟨hd.loaded, hd.addr, hd.len_eq, hd.pos_eq, hd.bufferLen_eq, hd.temporary, hd.limit⟩
      · rw [if_neg (by omega)]
        have hd := ha.within (le_of_lt hn) (not_lt.mp hover) hend
        have hmin : min n (st.inEffectFileLen -
            (st.largeReadPosition + st.bufferOffset + st.bufferLen)) = n := by omega
        rw [hmin]
        exact ⟨_, _, rfl, hd.loaded, rfl, rfl, (add_assoc ..).symm, rfl, rfl, rfl⟩

/-- **The current buffer, made longer.** -/
theorem growBuffer_spec (h : Loaded lens f ends st) (hends : ends st.inEffectFileLen)
    (hpos : 0 < st.bufferLen) (hn : st.bufferLen < n) (hle : n ≤ lens.maxBufferLen)
    (hblock : NoEndWithin ends st.inEffectFileLen (st.largeReadPosition + st.bufferOffset) n) :
    ∃ st' b, growBuffer lens f n st = .ok (st', b) ∧
      Delivered lens f ends st st' b (st.largeReadPosition + st.bufferOffset)
        (min n (st.inEffectFileLen - (st.largeReadPosition + st.bufferOffset))) := by
  have hbuf := h.buffer_le
  have hend : st.largeReadPosition + st.largeReadLen ≤ st.inEffectFileLen := by
    obtain hend | ⟨-, -, h0⟩ := h.limit
    · exact hend
    · exact absurd h0 (ne_of_gt hpos)
  rw [growBuffer]
  by_cases hover : st.bufferOffset + n > st.largeReadLen
  · rw [if_pos hover]
    exact useBeforeBuffer_spec h hends hle (by omega) hover hend hblock
  · rw [if_neg hover]
    have hmin : min n (st.inEffectFileLen - (st.largeReadPosition + st.bufferOffset)) =
      n := by omega
    rw [hmin]
    exact ⟨_, _, rfl, h.within (by omega) (not_lt.mp hover) hend⟩

/-- The calls of `setTemporaryRange` that set the limit for what is handed out: the range begins
outside the memory, so that it gets a large read of its own, or it does not end before the large
read does, or it is empty and begins with the large read. -/
def rangeHonoured (st : BufferedRead) (beginFileOffset afterFileOffset : ℤ) : Bool :=
  beginFileOffset < st.windowBegin ||
    st.largeReadPosition + st.largeReadLen ≤ beginFileOffset ||
    st.largeReadPosition + st.largeReadLen ≤ afterFileOffset ||
    (beginFileOffset = st.largeReadPosition && afterFileOffset = st.largeReadPosition)

/-- **A temporary range.** The next buffer starts where the range does, and the limit is its end. -/
theorem setTemporaryRange_spec (h : Loaded lens f ends st) {b a : ℤ} (hb : 0 ≤ b) (hba : b ≤ a)
    (ha : a ≤ f.bytes.length) (hends : ends a) (hhon : st.rangeHonoured b a) :
    ∃ st', setTemporaryRange lens f b a st = .ok st' ∧ Loaded lens f ends st' ∧
      st'.nextBufferPosition = b ∧ st'.inEffectFileLen = a ∧ st'.bufferLen = 0 := by
  have hP := h.position
  have hoff := h.offset
  have hM := lens.maxBufferLen_pos
  have hwin : st.windowBegin = st.largeReadPosition + min st.bufferOffset 0 := by
    rw [windowBegin]
    split_ifs <;> omega
  simp only [rangeHonoured, Bool.or_eq_true, Bool.and_eq_true, decide_eq_true_eq] at hhon
  rw [setTemporaryRange]
  by_cases hin : st.windowBegin ≤ b ∧ b < st.largeReadPosition + st.largeReadLen
  · rw [if_pos hin]
    refine ⟨_, rfl, ?_, ?_, rfl, rfl⟩
    · have hlen := h.len_nonneg
      constructor
      · exact hP
      · exact hlen
      · exact h.full
      · exact h.len_le
      · exact h.end_le
      · exact h.filePos
      · dsimp only
        omega
      · dsimp only
        omega
      · exact le_refl 0
      · dsimp only
        omega
      · intro h0
        have hoff0 := h.empty h0
        dsimp only at h0 ⊢
        omega
      · intro i hi hlt
        exact h.data i (by dsimp only at hi; omega) hlt
      · exact h.fileLen
      · exact ha
      · show _ ≤ a ∨ st.largeReadPosition = a ∧ b - st.largeReadPosition = 0 ∧ (0 : ℤ) = 0
        dsimp only
        omega
    · rw [nextBufferPosition]
      dsimp only
      omega
  · have hseek : st.filePos + (b - (st.largeReadPosition + st.largeReadLen)) = b := by
      have := h.filePos
      omega
    have hnext := nextReadLen_eq lens (show 0 ≤ a - b by omega)
    rw [if_neg hin, if_neg (not_not_intro hseek)]
    by_cases hempty : a = b
    · have hzero : nextReadLen lens (a - b) = 0 := by
        have := lens.maxBufferLen_le
        omega
      rw [if_neg (by omega)]
      refine ⟨_, rfl, ?_, by simp [nextBufferPosition], rfl, rfl⟩
      exact h.atLimit rfl hends ha hb hseek hzero hempty.symm rfl rfl
    · obtain ⟨hio, hd⟩ := h.next { st with
          bufferOffset := 0, bufferLen := 0, haveTemporaryLimitInEffect := true
          temporaryLimitFileLen := a
          filePos := st.filePos + (b - (st.largeReadPosition + st.largeReadLen))
          largeReadPosition := b, largeReadLen := nextReadLen lens (a - b) } 0 0
        rfl hends ha hb hseek hnext (lt_of_le_of_ne hba (Ne.symm hempty)) (by omega) (le_refl 0)
        (by dsimp only; omega) (le_refl 0) (by dsimp only; have := lens.maxBufferLen_le; omega)
        (fun i hi h0 => absurd hi (not_le.mpr h0))
      have hpos : nextReadLen lens (a - b) > 0 := by
        have := lens.maxBufferLen_le
        omega
      rw [if_pos hpos, hio]
      refine ⟨_, rfl, hd.loaded, ?_, rfl, rfl⟩
      rw [nextBufferPosition]
      exact (add_zero _).trans (add_zero _)

/-- **Opening a file.** -/
theorem setFile_spec (lens : BufferedReadLens) (hstart : ends 0) (hends : ends f.bytes.length) :
    ∃ st', setFile lens f f.bytes.length init = .ok st' ∧ Loaded lens f ends st' ∧
      st'.nextBufferPosition = 0 ∧ st'.inEffectFileLen = f.bytes.length ∧ st'.bufferLen = 0 := by
  have hM := lens.maxBufferLen_pos
  have hle := lens.maxBufferLen_le
  have hopened : Loaded lens f ends { init with fileLen := f.bytes.length } := by
    constructor <;> simp only [init, inEffectFileLen] <;> try simp <;> try omega
    · exact Or.inr hstart
    · omega
  have hnext := nextReadLen_eq lens (show 0 ≤ (f.bytes.length : ℤ) by omega)
  rw [setFile]
  by_cases hpos : (f.bytes.length : ℤ) > 0
  · obtain ⟨hio, hd⟩ := hopened.next { init with
        fileLen := f.bytes.length, largeReadLen := nextReadLen lens f.bytes.length } 0 0
      rfl hends (le_refl _) (le_refl 0) rfl (by rw [hnext]; simp [init, inEffectFileLen]) hpos
      (by omega) (le_refl 0) (le_refl 0) (le_refl 0) (by dsimp only; omega)
      (fun i hi h0 => absurd hi (not_le.mpr h0))
    rw [if_pos hpos]
    exact ⟨_, hio, hd.loaded, rfl, rfl, rfl⟩
  · rw [if_neg hpos]
    exact ⟨_, rfl, hopened, rfl, rfl, rfl⟩

end BufferedRead

end Hdb.AppendOnly
