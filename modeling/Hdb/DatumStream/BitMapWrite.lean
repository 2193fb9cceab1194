import Mathlib

/-!
# Bit-maps of a datum stream block

A bit-map is written one bit after the other. It is started late: when the first bit that is on is
to be written, the bits before it are filled with zeros.

The counters of a bit-map are what the writer of a block goes by. `Started b n` says that a bit-map
which is started has `n` bits, and that one which is not has none.
-/

namespace Hdb.DatumStream

def datumStreamBitMapSize (bitCount : ℕ) : ℕ := (bitCount + 7) >>> 3

structure DatumStreamBitMapWrite where
  buffer : ℕ → UInt8
  bufferSize : ℕ
  byteBit : UInt8
  /-- Into the buffer. -/
  bytePointer : ℕ
  bitOnCount : ℕ
  bitCount : ℕ

namespace DatumStreamBitMapWrite

def init (buffer : ℕ → UInt8) (bufferSize : ℕ) : DatumStreamBitMapWrite where
  buffer := buffer
  bufferSize := bufferSize
  byteBit := 0
  bytePointer := 0
  bitOnCount := 0
  bitCount := 0

def zeroFill (bmw : DatumStreamBitMapWrite) (bitCount : ℤ) : DatumStreamBitMapWrite :=
  if 0 < bitCount then
    let bitCount := bitCount.toNat
    let newSize := datumStreamBitMapSize bitCount
    let bitNumberInByte := (bitCount - 1) &&& 7
    { bmw with
      buffer := fun i => if i < newSize then 0 else bmw.buffer i
      byteBit := 1 <<< UInt8.ofNat bitNumberInByte
      bytePointer := newSize - 1
      bitCount := bitCount }
  else bmw

def set (bmw : DatumStreamBitMapWrite) : DatumStreamBitMapWrite :=
  { bmw with
    buffer := Function.update bmw.buffer bmw.bytePointer
      (bmw.buffer bmw.bytePointer ||| bmw.byteBit)
    bitOnCount := bmw.bitOnCount + 1 }

/-- Move on to the next bit, in a byte that is zeroed when it is entered. -/
def nextBit (bmw : DatumStreamBitMapWrite) : DatumStreamBitMapWrite :=
  if bmw.bitCount = 0 then
    { bmw with buffer := Function.update bmw.buffer bmw.bytePointer 0, byteBit := 1 }
  else
    let byteBit := bmw.byteBit <<< 1
    if byteBit = 0 then
      { bmw with
        buffer := Function.update bmw.buffer (bmw.bytePointer + 1) 0
        bytePointer := bmw.bytePointer + 1
        byteBit := 1 }
    else { bmw with byteBit }

def addBit (bmw : DatumStreamBitMapWrite) (on : Bool) : DatumStreamBitMapWrite :=
  let bmw := { bmw.nextBit with bitCount := bmw.bitCount + 1 }
  if on then bmw.set else bmw

def size (bmw : DatumStreamBitMapWrite) : ℕ := datumStreamBitMapSize bmw.bitCount

def nextSize (bmw : DatumStreamBitMapWrite) : ℕ := datumStreamBitMapSize (bmw.bitCount + 1)

/-- The bytes and the place in them are as before. -/
def copyToLargerBuffer (bmw : DatumStreamBitMapWrite) (newBufferSize : ℕ) :
    DatumStreamBitMapWrite :=
  { bmw with bufferSize := newBufferSize }

/-- Make the buffer large enough for `newSize` bytes. -/
def grow (bmw : DatumStreamBitMapWrite) (newSize initialMaxDatumPerBlock : ℕ) :
    DatumStreamBitMapWrite :=
  if newSize > bmw.bufferSize then
    let newBufferSize := bmw.bufferSize * 2
    bmw.copyToLargerBuffer
      (if newBufferSize < newSize then newSize + initialMaxDatumPerBlock else newBufferSize)
  else bmw

/-! ## The counters -/

variable (bmw : DatumStreamBitMapWrite)

@[simp] theorem addBit_bitCount (on : Bool) : (bmw.addBit on).bitCount = bmw.bitCount + 1 := by
  cases on <;> rfl

@[simp] theorem nextBit_bitOnCount : bmw.nextBit.bitOnCount = bmw.bitOnCount := by
  simp only [nextBit]
  split_ifs <;> rfl

@[simp] theorem addBit_bitOnCount (on : Bool) :
    (bmw.addBit on).bitOnCount = bmw.bitOnCount + on.toNat := by
  cases on with
  | false => exact bmw.nextBit_bitOnCount
  | true => exact congrArg (· + 1) bmw.nextBit_bitOnCount

@[simp] theorem set_bitCount : bmw.set.bitCount = bmw.bitCount := rfl

@[simp] theorem set_bitOnCount : bmw.set.bitOnCount = bmw.bitOnCount + 1 := rfl

@[simp] theorem grow_bitCount (newSize initialMaxDatumPerBlock : ℕ) :
    (bmw.grow newSize initialMaxDatumPerBlock).bitCount = bmw.bitCount := by
  simp only [grow]
  split_ifs <;> rfl

@[simp] theorem grow_bitOnCount (newSize initialMaxDatumPerBlock : ℕ) :
    (bmw.grow newSize initialMaxDatumPerBlock).bitOnCount = bmw.bitOnCount := by
  simp only [grow]
  split_ifs <;> rfl

@[simp] theorem zeroFill_bitOnCount (bitCount : ℤ) :
    (bmw.zeroFill bitCount).bitOnCount = bmw.bitOnCount := by
  rw [zeroFill]
  split_ifs <;> rfl

/-- On a fresh bit-map also when there is nothing to fill. -/
theorem zeroFill_bitCount (hfresh : bmw.bitCount = 0) (bitCount : ℤ) :
    (bmw.zeroFill bitCount).bitCount = bitCount.toNat := by
  rw [zeroFill]
  split_ifs with hpos
  · rfl
  · rw [hfresh, Int.toNat_of_nonpos (not_lt.mp hpos)]

/-- The counters of a bit-map with `n` bits if it is started, and with none if it is not. -/
structure Started (started : Bool) (n : ℕ) : Prop where
  bitCount : bmw.bitCount = if started then n else 0
  bitOnCount : started = false → bmw.bitOnCount = 0

variable {bmw} {started : Bool} {n : ℕ}

theorem Started.fresh (h : bmw.Started false n) : bmw.bitCount = 0 := h.bitCount

theorem Started.of_true (h : bmw.bitCount = n) : bmw.Started true n :=
  ⟨h, fun hfalse => Bool.noConfusion hfalse⟩

theorem Started.addBit (h : bmw.Started true n) (on : Bool) :
    (bmw.addBit on).Started true (n + 1) :=
  .of_true (by rw [addBit_bitCount, h.bitCount, if_pos rfl])

theorem Started.set (h : bmw.Started true n) : bmw.set.Started true n := .of_true h.bitCount

theorem Started.grow (h : bmw.Started started n) (newSize initialMaxDatumPerBlock : ℕ) :
    (bmw.grow newSize initialMaxDatumPerBlock).Started started n :=
  ⟨by rw [grow_bitCount, h.bitCount], fun hs => by rw [grow_bitOnCount, h.bitOnCount hs]⟩

/-- The number of bits does not matter before the first one. -/
theorem Started.of_false (h : bmw.Started started n) (hs : started = false) (m : ℕ) :
    bmw.Started started m := by
  subst hs
  exact ⟨h.bitCount, h.bitOnCount⟩

end DatumStreamBitMapWrite

end Hdb.DatumStream
