import Hdb.Lib.Bits

/-!
# Bit streams

A cursor in a buffer of bytes, for reading and for writing. An operation that fails sets the error
flag of the stream, after which all others fail; here it is `none`.

`Reads s bs` says that the bits from the cursor on are `bs`, `Writes s bs` that the bits up to the
cursor are `bs` and the ones behind it zero. What has been written, up to the last byte, is read
from its start (`Writes.bitsOf_take`, `reads_init`).
-/

namespace Hdb.AppendOnly

/-- A cursor in a buffer of bytes. -/
structure Bitstream where
  data : List UInt8
  byteOffset : ℕ
  bitOffset : ℕ

namespace Bitstream

def init (data : List UInt8) : Bitstream := ⟨data, 0, 0⟩

/-- The cursor moves by one bit. -/
def advance (s : Bitstream) : Bitstream :=
  if s.bitOffset + 1 = 8 then { s with byteOffset := s.byteOffset + 1, bitOffset := 0 }
  else { s with bitOffset := s.bitOffset + 1 }

def getBit (s : Bitstream) : Option (Bool × Bitstream) :=
  if s.byteOffset ≥ s.data.length then none
  else some ((s.data[s.byteOffset]?.getD 0).toNat.testBit (7 - s.bitOffset), s.advance)

/-- The buffer after a bit is put at the cursor. -/
def setBit (v : Bool) (s : Bitstream) : List UInt8 :=
  let mask := UInt8.ofNat (1 <<< (7 - s.bitOffset))
  if v then s.data.modify s.byteOffset (· ||| mask) else s.data

def putBit (v : Bool) (s : Bitstream) : Option Bitstream :=
  if s.byteOffset ≥ s.data.length then none else some { s with data := s.setBit v }.advance

def skip (skipBitCount : ℕ) (s : Bitstream) : Option Bitstream :=
  if s.byteOffset ≥ s.data.length then none
  else
    let newBitOffset := s.bitOffset + skipBitCount
    some { s with bitOffset := newBitOffset % 8, byteOffset := s.byteOffset + newBitOffset / 8 }

/-- The loop of `Bitstream_Get`, where `v` is what has been read. -/
def get : ℕ → (v : ℕ) → Bitstream → Option (ℕ × Bitstream)
  | 0, v, s => some (v, s)
  | n + 1, v, s => s.getBit.bind fun r => get n (v <<< 1 ||| r.1.toNat) r.2

def put (v : ℕ) : ℕ → Bitstream → Option Bitstream
  | 0, s => some s
  | n + 1, s => (s.putBit (v.testBit n)).bind (put v n)

/-- `Bitstream_GetLength`, in bytes. -/
def length (s : Bitstream) : ℕ := if s.bitOffset = 0 then s.byteOffset else s.byteOffset + 1

def offset (s : Bitstream) : ℕ := 8 * s.byteOffset + s.bitOffset

/-- The bits from the cursor on. -/
def Reads (s : Bitstream) (bs : List Bool) : Prop :=
  s.bitOffset < 8 ∧ (bitsOf s.data).drop s.offset = bs

/-- The bits up to the cursor; the bits behind it are zero. -/
structure Writes (s : Bitstream) (bs : List Bool) : Prop where
  bit : s.bitOffset < 8
  length : bs.length = s.offset
  le : bs.length ≤ 8 * s.data.length
  bits : bitsOf s.data = bs ++ List.replicate (8 * s.data.length - bs.length) false

variable {s s' : Bitstream} {bs cs : List Bool} {b : Bool}

theorem offset_advance (s : Bitstream) : s.advance.offset = s.offset + 1 := by
  rw [advance]
  split_ifs <;> simp only [offset] <;> omega

theorem bit_advance (h : s.bitOffset < 8) : s.advance.bitOffset < 8 := by
  rw [advance]
  split_ifs with h8
  · exact Nat.zero_lt_succ 7
  · exact show s.bitOffset + 1 < 8 by omega

@[simp] theorem data_advance (s : Bitstream) : s.advance.data = s.data := by
  rw [advance]
  split_ifs <;> rfl

theorem getBit_spec (h : s.Reads (b :: bs)) :
    ∃ s', s.getBit = some (b, s') ∧ s'.Reads bs ∧ s'.data = s.data := by
  obtain ⟨hbit, hdrop⟩ := h
  have hlt : s.offset < (bitsOf s.data).length := by
    by_contra hge
    rw [List.drop_eq_nil_of_le (by omega)] at hdrop
    cases hdrop
  have hlt' : 8 * s.byteOffset + s.bitOffset < 8 * s.data.length := by simpa [offset] using hlt
  rw [List.drop_eq_getElem_cons hlt, getElem_bitsOf] at hdrop
  obtain ⟨hb, hrest⟩ := List.cons.inj hdrop
  refine ⟨s.advance, ?_, ⟨bit_advance hbit, ?_⟩, data_advance s⟩
  · rw [getBit, if_neg (by omega), ← hb, bitAt, offset,
      show (8 * s.byteOffset + s.bitOffset) / 8 = s.byteOffset by omega,
      show (8 * s.byteOffset + s.bitOffset) % 8 = s.bitOffset by omega]
  · rw [data_advance, offset_advance, hrest]

theorem get_spec (n v acc : ℕ) (h : s.Reads (numBits n v ++ bs)) :
    ∃ s', s.get n acc = some (acc * 2 ^ n + v % 2 ^ n, s') ∧ s'.Reads bs ∧ s'.data = s.data := by
  induction n generalizing s acc with
  | zero => exact ⟨s, by simp [get, Nat.mod_one], h, rfl⟩
  | succ n ih =>
    obtain ⟨s₁, hs₁, h₁, hdata₁⟩ := getBit_spec h
    obtain ⟨s', hs', h', hdata'⟩ := ih (acc <<< 1 ||| (v.testBit n).toNat) h₁
    refine ⟨s', ?_, h', hdata'.trans hdata₁⟩
    have hor : acc <<< 1 ||| (v.testBit n).toNat = acc * 2 + (v.testBit n).toNat := by
      rw [← Nat.shiftLeft_add_eq_or_of_lt (Bool.toNat_lt _), Nat.shiftLeft_eq, pow_one]
    have hmod : v % 2 ^ (n + 1) = v % 2 ^ n + 2 ^ n * (v.testBit n).toNat := by
      rw [pow_succ, Nat.mod_mul, Nat.testBit_eq_decide_div_mod_eq]
      obtain h2 | h2 := Nat.mod_two_eq_zero_or_one (v / 2 ^ n) <;> simp [h2]
    rw [get, hs₁, Option.bind_some, hs', hor, hmod]
    ring_nf

theorem getBit_nil (h : s.Reads []) : s.getBit = none := by
  obtain ⟨hbit, hdrop⟩ := h
  have hle : 8 * s.data.length ≤ s.offset := by
    have hlen := congrArg List.length hdrop
    rw [List.length_drop, length_bitsOf, List.length_nil] at hlen
    omega
  rw [offset] at hle
  rw [getBit, if_pos (by omega)]

/-- Not enough bits are left. -/
theorem get_eq_none {n : ℕ} (acc : ℕ) (h : s.Reads bs) (hlt : bs.length < n) :
    s.get n acc = none := by
  induction n generalizing s bs acc with
  | zero => exact absurd hlt (Nat.not_lt_zero _)
  | succ n ih =>
    cases bs with
    | nil => rw [get, getBit_nil h, Option.bind_none]
    | cons b bs =>
      obtain ⟨s₁, hs₁, h₁, -⟩ := getBit_spec h
      rw [get, hs₁, Option.bind_some, ih _ h₁ (Nat.lt_of_succ_lt_succ hlt)]

/-- As many bits as are there can be read. -/
theorem get_isSome {n : ℕ} (acc : ℕ) (h : s.Reads bs) (hle : n ≤ bs.length) :
    ∃ v s', s.get n acc = some (v, s') ∧ s'.Reads (bs.drop n) ∧ s'.data = s.data := by
  induction n generalizing s bs acc with
  | zero => exact ⟨acc, s, rfl, h, rfl⟩
  | succ n ih =>
    cases bs with
    | nil => exact absurd hle (Nat.not_succ_le_zero n)
    | cons b bs =>
      obtain ⟨s₁, hs₁, h₁, hdata₁⟩ := getBit_spec h
      obtain ⟨v, s', hs', h', hdata'⟩ := ih (acc <<< 1 ||| b.toNat) h₁ (Nat.le_of_succ_le_succ hle)
      exact ⟨v, s', by rw [get, hs₁, Option.bind_some, hs'], h', hdata'.trans hdata₁⟩

theorem reads_init (data : List UInt8) : (init data).Reads (bitsOf data) :=
    ⟨Nat.zero_lt_succ 7, rfl⟩

theorem writes_init (n : ℕ) : (init (List.replicate n 0)).Writes [] where
  bit := Nat.zero_lt_succ 7
  length := rfl
  le := Nat.zero_le _
  bits := by simp [init, bitsOf_replicate_zero]

theorem length_setBit (b : Bool) (s : Bitstream) : (s.setBit b).length = s.data.length := by
  rw [setBit]
  split_ifs
  · exact List.length_modify ..
  · rfl

theorem bitsOf_setBit (h : s.Writes bs) (hlt : bs.length < 8 * s.data.length) (b : Bool) :
    bitsOf (s.setBit b) = bs ++ b :: List.replicate
      (8 * s.data.length - (bs.length + 1)) false := by
  have hbit := h.bit
  have hrest : 8 * s.data.length - bs.length = (8 * s.data.length - (bs.length + 1)) + 1 := by omega
  have hbits := h.bits
  rw [hrest, List.replicate_succ] at hbits
  cases b with
  | false => exact hbits
  | true =>
    rw [setBit, if_pos rfl, show s.byteOffset = s.offset / 8 by rw [offset]; omega,
      show s.bitOffset = s.offset % 8 by rw [offset]; omega, bitsOf_modify, hbits, ← h.length,
      List.set_append_right _ _ le_rfl, Nat.sub_self, List.set_cons_zero]

/-- Writing a bit fails when the buffer is full. -/
theorem putBit_eq_some (h : s.Writes bs) (hs : s.putBit b = some s') :
    s'.Writes (bs ++ [b]) ∧ s'.data.length = s.data.length := by
  rw [putBit] at hs
  split_ifs at hs with hfull
  cases hs
  have hlt : bs.length < 8 * s.data.length := by
    have hlength := h.length
    have hbit := h.bit
    rw [offset] at hlength
    omega
  refine ⟨⟨bit_advance h.bit, ?_, ?_, ?_⟩, by rw [data_advance, length_setBit]⟩
  · rw [List.length_append, h.length, offset_advance]
    rfl
  · rw [data_advance, length_setBit, List.length_append]
    exact hlt
  · rw [data_advance, length_setBit, bitsOf_setBit h hlt, List.length_append, List.append_assoc]
    rfl

theorem put_eq_some {n v : ℕ} (h : s.Writes bs) (hs : s.put v n = some s') :
    s'.Writes (bs ++ numBits n v) ∧ s'.data.length = s.data.length := by
  induction n generalizing s bs with
  | zero =>
    cases hs
    exact ⟨by simpa [numBits] using h, rfl⟩
  | succ n ih =>
    obtain ⟨s₁, hs₁, hs⟩ := Option.bind_eq_some_iff.mp hs
    obtain ⟨h₁, hlen₁⟩ := putBit_eq_some h hs₁
    obtain ⟨h', hlen'⟩ := ih h₁ hs
    exact ⟨by simpa [numBits] using h', hlen'.trans hlen₁⟩

theorem put_isSome {n v : ℕ} (h : s.Writes bs) (hn : bs.length + n ≤ 8 * s.data.length) :
    ∃ s', s.put v n = some s' := by
  induction n generalizing s bs with
  | zero => exact ⟨s, rfl⟩
  | succ n ih =>
    have hlength := h.length
    have hroom : ¬ s.byteOffset ≥ s.data.length := by
      rw [offset] at hlength
      omega
    have hs₁ : s.putBit (v.testBit n) = some _ := if_neg hroom
    obtain ⟨h₁, hlen₁⟩ := putBit_eq_some h hs₁
    obtain ⟨s', hs'⟩ := ih h₁ (by
      rw [hlen₁, List.length_append, List.length_singleton]
      omega)
    exact ⟨s', by rw [put, hs₁]; exact hs'⟩

theorem skip_eq_some {n : ℕ} (h : s.Writes bs) (hs : s.skip n = some s')
    (hn : bs.length + n ≤ 8 * s.data.length) :
    s'.Writes (bs ++ List.replicate n false) ∧ s'.data = s.data := by
  rw [skip] at hs
  split_ifs at hs
  cases hs
  have hlength := h.length
  refine ⟨⟨Nat.mod_lt _ (by omega), ?_, ?_, ?_⟩, rfl⟩
  · rw [offset] at hlength
    simp only [List.length_append, List.length_replicate, offset]
    omega
  · simp only [List.length_append, List.length_replicate]
    exact hn
  · have hrest : 8 * s.data.length - bs.length =
      n + (8 * s.data.length - (bs.length + n)) := by omega
    simp only [h.bits, hrest, List.replicate_add, List.append_assoc, List.length_append,
      List.length_replicate]

theorem skip_reads {n : ℕ} (h : s.Reads (cs ++ bs)) (hcs : cs.length = n) (hn : 0 < n) :
    ∃ s', s.skip n = some s' ∧ s'.Reads bs ∧ s'.data = s.data := by
  obtain ⟨hbit, hdrop⟩ := h
  have hlen := congrArg List.length hdrop
  rw [List.length_drop, length_bitsOf, List.length_append, offset] at hlen
  refine ⟨_, if_neg (by omega), ⟨Nat.mod_lt _ (by omega), ?_⟩, rfl⟩
  have hoff : 8 * (s.byteOffset + (s.bitOffset + n) / 8) + (s.bitOffset + n) % 8 =
      s.offset + cs.length := by
    rw [offset]
    omega
  rw [offset, hoff, ← List.drop_drop, hdrop, List.drop_left]

/-- What has been written, up to the last byte. -/
theorem Writes.bitsOf_take (h : s.Writes bs) :
    ∃ pad, bitsOf (s.data.take s.length) = bs ++ pad ∧ pad.length < 8 := by
  have hbit := h.bit
  have hlength := h.length
  have hle := h.le
  rw [offset] at hlength
  have hbytes : bs.length ≤ 8 * s.length ∧ 8 * s.length < bs.length + 8 := by
    rw [hlength, Bitstream.length]
    split_ifs <;> omega
  refine ⟨(List.replicate (8 * s.data.length - bs.length) false).take (8 * s.length - bs.length),
    ?_, ?_⟩
  · rw [Hdb.bitsOf_take, h.bits, List.take_append, List.take_of_length_le hbytes.1]
  · rw [List.length_take]
    omega

end Bitstream

end Hdb.AppendOnly
