import Mathlib

/-!
# Bytes, bits and numbers

The bits of a byte string, the highest bit of a byte being the first one, and numbers as strings of
bits and of bytes.
-/

namespace Hdb

/-! ## Bits of a byte string -/

def bitAt (data : List UInt8) (i : ℕ) : Bool := (data[i / 8]?.getD 0).toNat.testBit (7 - i % 8)

def bitsOf (data : List UInt8) : List Bool := (List.range (8 * data.length)).map (bitAt data)

@[simp] theorem length_bitsOf (data : List UInt8) : (bitsOf data).length = 8 * data.length := by
  simp [bitsOf]

theorem getElem_bitsOf (data : List UInt8) (i : ℕ) (h : i < (bitsOf data).length) :
    (bitsOf data)[i] = bitAt data i := by
  simp [bitsOf]

theorem bitsOf_replicate_zero (n : ℕ) :
    bitsOf (List.replicate n 0) = List.replicate (8 * n) false := by
  refine List.ext_getElem (by simp) fun i hi _ => ?_
  rw [getElem_bitsOf, List.getElem_replicate, bitAt, List.getElem?_replicate]
  split_ifs <;> simp

theorem bitsOf_take (data : List UInt8) (n : ℕ) :
    bitsOf (data.take n) = (bitsOf data).take (8 * n) := by
  refine List.ext_getElem (by simp [Nat.mul_min_mul_left]) fun i hi _ => ?_
  have hlt : i / 8 < n := by
    simp at hi
    omega
  rw [getElem_bitsOf, List.getElem_take, getElem_bitsOf, bitAt, bitAt, List.getElem?_take_of_lt hlt]

theorem bitsOf_append (data data' : List UInt8) :
    bitsOf (data ++ data') = bitsOf data ++ bitsOf data' := by
  refine List.ext_getElem (by simp [mul_add]) fun i hi _ => ?_
  rw [getElem_bitsOf, List.getElem_append, bitAt]
  split_ifs with hlt
  · rw [length_bitsOf] at hlt
    rw [getElem_bitsOf, bitAt, List.getElem?_append_left (by omega)]
  · rw [length_bitsOf] at hlt
    simp only [length_bitsOf]
    rw [getElem_bitsOf, bitAt, List.getElem?_append_right (by omega),
      show i / 8 - data.length = (i - 8 * data.length) / 8 by omega,
      show i % 8 = (i - 8 * data.length) % 8 by omega]

/-- Setting a bit of a byte. -/
theorem testBit_or_mask (b : UInt8) {o p : ℕ} (ho : o < 8) (hp : p < 8) :
    (b ||| UInt8.ofNat (1 <<< (7 - o))).toNat.testBit (7 - p) =
      (b.toNat.testBit (7 - p) || decide (o = p)) := by
  have hlt : 1 <<< (7 - o) < 256 := by
    rw [Nat.one_shiftLeft]
    exact Nat.pow_lt_pow_right (by omega) (show 7 - o < 8 by omega)
  rw [UInt8.toNat_or, UInt8.toNat_ofNat', Nat.mod_eq_of_lt hlt, Nat.testBit_or, Nat.one_shiftLeft,
    Nat.testBit_two_pow]
  congr 2
  exact propext (by omega)

theorem bitsOf_modify (data : List UInt8) (i : ℕ) :
    bitsOf (data.modify (i / 8) (· ||| UInt8.ofNat (1 <<< (7 - i % 8)))) =
      (bitsOf data).set i true := by
  refine List.ext_getElem (by simp) fun j hj _ => ?_
  have hj' : j < 8 * data.length := by simpa using hj
  have hget : data[j / 8]? = some (data.get ⟨j / 8, by omega⟩) :=
    List.getElem?_eq_getElem (by omega)
  rw [getElem_bitsOf, List.getElem_set, getElem_bitsOf, bitAt, bitAt, List.getElem?_modify, hget]
  simp only [Option.map_eq_map, Option.map_some, Option.getD_some]
  by_cases hbyte : i / 8 = j / 8
  · rw [if_pos hbyte, testBit_or_mask _ (Nat.mod_lt i (by omega)) (Nat.mod_lt j (by omega))]
    by_cases hij : i = j
    · simp [hij]
    · have hmod : i % 8 ≠ j % 8 := by omega
      simp [hij, hmod]
  · have hij : i ≠ j := fun heq => hbyte (by rw [heq])
    rw [if_neg hbyte, if_neg hij]

/-! ## Numbers as bits -/

/-- The low `n` bits of a number, the highest one first. -/
def numBits : ℕ → ℕ → List Bool
  | 0, _ => []
  | n + 1, v => v.testBit n :: numBits n v

@[simp] theorem length_numBits (n v : ℕ) : (numBits n v).length = n := by
  induction n with
  | zero => rfl
  | succ n ih => rw [numBits, List.length_cons, ih]

/-! ## Numbers as bytes -/

/-- The low `n` bytes of a number, the lowest one first. -/
def toLittleEndian : ℕ → ℕ → List UInt8
  | 0, _ => []
  | n + 1, v => UInt8.ofNat v :: toLittleEndian n (v / 256)

def ofLittleEndian : List UInt8 → ℕ
  | [] => 0
  | b :: bs => b.toNat + 256 * ofLittleEndian bs

@[simp] theorem length_toLittleEndian (n v : ℕ) : (toLittleEndian n v).length = n := by
  induction n generalizing v with
  | zero => rfl
  | succ n ih => rw [toLittleEndian, List.length_cons, ih]

theorem ofLittleEndian_toLittleEndian (n v : ℕ) :
    ofLittleEndian (toLittleEndian n v) = v % 256 ^ n := by
  induction n generalizing v with
  | zero => rw [toLittleEndian, ofLittleEndian, pow_zero, Nat.mod_one]
  | succ n ih =>
    have hbyte : (UInt8.ofNat v).toNat = v % 256 := UInt8.toNat_ofNat'
    rw [toLittleEndian, ofLittleEndian, ih, hbyte, pow_succ', Nat.mod_mul]

theorem ofLittleEndian_lt (bytes : List UInt8) : ofLittleEndian bytes < 256 ^ bytes.length := by
  induction bytes with
  | nil => exact Nat.one_pos
  | cons b bytes ih =>
    have hb := b.toNat_lt
    rw [ofLittleEndian, List.length_cons, pow_succ]
    omega

theorem toLittleEndian_ofLittleEndian (bytes : List UInt8) :
    toLittleEndian bytes.length (ofLittleEndian bytes) = bytes := by
  induction bytes with
  | nil => rfl
  | cons b bytes ih =>
    have hdiv : (b.toNat + 256 * ofLittleEndian bytes) / 256 = ofLittleEndian bytes := by
      have hb := b.toNat_lt
      omega
    have hbyte : UInt8.ofNat (b.toNat + 256 * ofLittleEndian bytes) = b := by
      refine UInt8.toNat_inj.mp ?_
      have hb := b.toNat_lt
      rw [UInt8.toNat_ofNat']
      omega
    rw [List.length_cons, ofLittleEndian, toLittleEndian, hdiv, hbyte, ih]

def toBigEndian (n v : ℕ) : List UInt8 := (toLittleEndian n v).reverse

def ofBigEndian (bs : List UInt8) : ℕ := ofLittleEndian bs.reverse

@[simp] theorem length_toBigEndian (n v : ℕ) : (toBigEndian n v).length = n := by
  simp [toBigEndian]

theorem ofBigEndian_toBigEndian (n v : ℕ) : ofBigEndian (toBigEndian n v) = v % 256 ^ n := by
  rw [ofBigEndian, toBigEndian, List.reverse_reverse, ofLittleEndian_toLittleEndian]

end Hdb
